import MyBase.Meta.SysMgr

/-!
# MyBase — the tables that clients and storage nodes get

A reply to `KV_REQ_MESSAGE_GET_META` carries `hashTable`, a reply to a heartbeat `hashTable` and
`dHashTable`. Neither is read from the tables: replies carry copies, which
`deflateHashTable` makes and which the operations have to renew.

* `Published` — the copies are the tables;
* `published_step` — every operation keeps that, but for a report for the bucket behind
  the last one, which reaches into `dHashTable`;
* `Refreshes` — the operations that make it so whatever the copies were;
* `replies_exact_iff` — when the replies are the tables: the process was started on an
  existing file, or one of these operations has run;
* `versions_follow_tables` — other tables have a later version.

A file that is created is not copied (`replies_empty_after_create`): until then
replies carry no table. A report for the bucket behind the last one is the other
exception.
-/

namespace MyBase

open Lib

-- Replies

/-- `KvResponseGetMeta`. -/
structure GetMetaResponse where
  tablebytes : List ServerId
  metaversion : Nat
  bucketcount : Nat
  copycount : Nat
  deriving DecidableEq, Repr

/-- `KvResponseHeartbeat`, as far as it is about the tables. -/
structure HeartbeatResponse where
  clientversion : Nat
  serverversion : Nat
  bucketcount : Nat
  copycount : Nat
  nscapacityversion : Nat
  tablebytes : List ServerId
  deriving DecidableEq, Repr

namespace SysMgr

def getMetaResponse (s : SysMgr) : GetMetaResponse where
  tablebytes := s.tableMgr.hashTableDeflateDataForClient
  metaversion := s.tableMgr.clientVersion
  bucketcount := s.tableMgr.serverBucketCount
  copycount := s.tableMgr.serverCopyCount

def heartbeatResponse (s : SysMgr) : HeartbeatResponse where
  clientversion := s.tableMgr.clientVersion
  serverversion := s.tableMgr.serverVersion
  bucketcount := s.tableMgr.serverBucketCount
  copycount := s.tableMgr.serverCopyCount
  nscapacityversion := s.tableMgr.namespaceCapacityVersion
  tablebytes := s.tableMgr.hashTableDeflateDataForDataServer

end SysMgr

-- The copies are the tables

namespace TableMgr

/-- The copies are the tables. -/
def Published (m : TableMgr) : Prop :=
  m.hashTableDeflateDataForClient = m.cells .hash ∧
    m.hashTableDeflateDataForDataServer = m.cells .hash ++ m.cells .dest

instance (m : TableMgr) : Decidable m.Published := inferInstanceAs (Decidable (_ ∧ _))

theorem deflateHashTable_published (m : TableMgr) : m.deflateHashTable.Published := ⟨rfl, rfl⟩

/-- Tables of one size with the same cells are the same words. -/
theorem cells_congr {m m' : TableMgr} (hHeader : m.SameHeader m') {kind : TableKind}
    (h : ∀ p < m.serverCopyCount, ∀ b < m.serverBucketCount, m'.table kind p b = m.table kind p b) :
    m'.cells kind = m.cells kind := by
  have hSize : m'.getHashTableSize = m.getHashTableSize := by
    unfold getHashTableSize
    rw [hHeader.copyCount, hHeader.bucketCount]
  unfold cells
  rw [hSize]
  refine List.map_congr_left fun i hi => ?_
  obtain ⟨hp, hb⟩ := div_lt_and_mod_lt (List.mem_range.mp hi)
  rw [cell_eq_table, cell_eq_table, hHeader.bucketCount]
  exact h _ hp _ hb

/-- A report for a bucket of the table leaves what is published. -/
theorem Published.setMigratingRow {m : TableMgr} (h : m.Published) {b : Nat}
    (hb : b < m.serverBucketCount) : (m.setMigratingRow b).1.Published := by
  have hSpec := setMigratingRow_spec m hb
  have hCells : ∀ kind, kind ≠ .mig → (m.setMigratingRow b).1.cells kind = m.cells kind := by
    intro kind hKind
    refine cells_congr hSpec.header fun p hp b' hb' => ?_
    exact (hSpec.tables kind p hp b' hb').trans (if_neg fun hHere => hKind hHere.1)
  obtain ⟨words, hWords, hFile⟩ := hSpec.header
  unfold Published
  rw [hCells .hash (by decide), hCells .dest (by decide), hFile]
  exact h

end TableMgr

namespace SysMgr

/-- An accepted report is not for the bucket behind the last one. -/
def NotBehind (s : SysMgr) : SysAction → Prop
  | .setMigratingHashtable b server => s.Accepts b server → b ≠ s.tableMgr.serverBucketCount
  | _ => True

instance (s : SysMgr) (a : SysAction) : Decidable (s.NotBehind a) :=
  match a with
  | .setMigratingHashtable b server =>
    if h : s.Accepts b server ∧ b = s.tableMgr.serverBucketCount then
      isFalse fun hNot => hNot h.1 h.2
    else isTrue fun hAccepts hEq => h ⟨hAccepts, hEq⟩
  | .rebuild .. | .rebuildQuickTable _ | .checkMigrateComplete | .restart _ => isTrue trivial

/-- The operations that make the copies anew. -/
def Refreshes (s : SysMgr) : SysAction → Prop
  | .rebuild upnodeList rand fuel =>
    ∃ dest, (s.tableBuilder upnodeList).rebuildTableNew rand fuel (s.quickTable upnodeList) =
      some (.ok dest)
  | .rebuildQuickTable _ => True
  | .setMigratingHashtable _ _ => False
  | .checkMigrateComplete =>
    s.tableMgr.migrateBlockCount ≠ -1 ∧ s.migrateMachine.entries = []
  | .restart _ => True

instance (s : SysMgr) (a : SysAction) : Decidable (s.Refreshes a) :=
  match a with
  | .rebuild upnodeList rand fuel =>
    match h : (s.tableBuilder upnodeList).rebuildTableNew rand fuel (s.quickTable upnodeList) with
    | some (.ok dest) => isTrue ⟨dest, h⟩
    | some .error => isFalse fun ⟨_, hOk⟩ => by simp [h] at hOk
    | some .noChange => isFalse fun ⟨_, hOk⟩ => by simp [h] at hOk
    | none => isFalse fun ⟨_, hOk⟩ => by simp [h] at hOk
  | .rebuildQuickTable _ => inferInstanceAs (Decidable True)
  | .setMigratingHashtable _ _ => inferInstanceAs (Decidable False)
  | .checkMigrateComplete => inferInstanceAs (Decidable (_ ∧ _))
  | .restart _ => inferInstanceAs (Decidable True)

section Runs

variable {s s' : SysMgr} {a : SysAction}

/-- After an operation that makes them anew the copies are the tables. -/
theorem published_of_refreshes (hStep : s.step a = some s') (h : s.Refreshes a) :
    s'.tableMgr.Published := by
  cases a with
  | rebuild upnodeList rand fuel =>
    obtain ⟨dest, hOk⟩ := h
    simp only [step, rebuild, hOk] at hStep
    cases hStep
    exact TableMgr.deflateHashTable_published _
  | rebuildQuickTable upnodeList =>
    cases hStep
    exact TableMgr.deflateHashTable_published _
  | setMigratingHashtable b server => exact absurd h id
  | checkMigrateComplete =>
    cases does_of_step hStep with
    | waiting hWaiting =>
      rcases hWaiting with hDone | hSome
      · exact absurd hDone h.1
      · exact absurd h.2 hSome
    | completed _ _ _ =>
      exact TableMgr.deflateHashTable_published _
  | restart minConfigVersion =>
    cases hStep
    exact TableMgr.deflateHashTable_published _

/-- **Step lemma.** Every operation keeps the copies right, unless it is a report for the
bucket behind the last one. -/
theorem published_step (h : s.tableMgr.Published) (hNotBehind : s.NotBehind a)
    (hStep : s.step a = some s') : s'.tableMgr.Published := by
  cases does_of_step hStep with
  | unchanged | turnedAway _ | repeated _ _ | waiting _ => exact h
  | rebuilt hOk => exact published_of_refreshes hStep ⟨_, hOk⟩
  | quick | restarted => exact published_of_refreshes hStep trivial
  | reported hAccepts _ _ =>
    have hNe := hNotBehind hAccepts
    have hLe := hAccepts.1
    exact TableMgr.Published.setMigratingRow h (by omega)
  | completed hMigrating hEmpty _ =>
    exact published_of_refreshes hStep ⟨hMigrating, hEmpty⟩

/-- Nothing has been copied yet. -/
def Unpublished (s : SysMgr) : Prop :=
  s.tableMgr.hashTableDeflateDataForClient = [] ∧
    s.tableMgr.hashTableDeflateDataForDataServer = []

theorem Unpublished.step (h : s.Unpublished) (hNot : ¬ s.Refreshes a)
    (hStep : s.step a = some s') : s'.Unpublished := by
  cases does_of_step hStep with
  | unchanged | turnedAway _ | repeated _ _ | waiting _ => exact h
  | rebuilt hOk => exact absurd ⟨_, hOk⟩ hNot
  | quick | restarted => exact absurd trivial hNot
  | @reported b _ _ _ _ _ =>
    obtain ⟨words, hWords, hFile⟩ := TableMgr.setMigratingRow_header s.tableMgr b
    unfold Unpublished countDown
    rw [hFile]
    exact h
  | completed hMigrating hEmpty _ => exact absurd ⟨hMigrating, hEmpty⟩ hNot

theorem Unpublished.not_published (h : s.Unpublished) : ¬ s.tableMgr.Published := by
  intro hPublished
  have hLength := congrArg List.length hPublished.1
  rw [h.1] at hLength
  simp only [TableMgr.cells, List.length_nil, List.length_map, List.length_range] at hLength
  have hPos : 0 < s.tableMgr.getHashTableSize :=
    Nat.mul_pos s.tableMgr.copies_pos s.tableMgr.buckets_pos
  omega

end Runs

-- Runs

/-- How a process comes to its tables. -/
inductive StartUp
  | existing (m : TableMgr)
  | created (bucketCount copyCount : Nat) (hBuckets : 0 < bucketCount) (hCopies : 0 < copyCount)
      (hFits : 24 * (copyCount * bucketCount) + 36 < 2 ^ 31)

/-- The state after start-up. -/
def StartUp.sysMgr (minConfigVersion : Nat) : StartUp → SysMgr
  | .existing m => SysMgr.opened m minConfigVersion
  | .created bucketCount copyCount hBuckets hCopies hFits =>
    SysMgr.created bucketCount copyCount hBuckets hCopies hFits minConfigVersion

/-- The process found a file, or the copies have been made by one of the steps. -/
def Refreshed (start : StartUp) (minConfigVersion : Nat) (acts : List SysAction) : Prop :=
  (∃ m, start = .existing m) ∨
    ∃ before a after s₁, acts = before ++ a :: after ∧
      run step (start.sysMgr minConfigVersion) before = some s₁ ∧ s₁.Refreshes a

/-- In every run without a report for the bucket behind the last one, the replies carry
exactly the words of the tables when the process was started on an existing file or a
step has renewed the copies, and otherwise not. -/
theorem replies_exact_iff (start : StartUp) (minConfigVersion : Nat) {acts : List SysAction}
    {s : SysMgr} (hAlong : Along step NotBehind (start.sysMgr minConfigVersion) acts)
    (hRun : run step (start.sysMgr minConfigVersion) acts = some s) :
    (s.getMetaResponse.tablebytes = s.tableMgr.cells .hash ∧
      s.heartbeatResponse.tablebytes = s.tableMgr.cells .hash ++ s.tableMgr.cells .dest) ↔
    Refreshed start minConfigVersion acts := by
  have hKeep : ∀ {s₀ acts}, s₀.tableMgr.Published → Along step NotBehind s₀ acts →
      run step s₀ acts = some s → s.tableMgr.Published := fun hInit hAlong hRun =>
    run_invariant (fun _ _ _ hNotBehind hInv hStep => published_step hInv hNotBehind hStep)
      hInit hAlong hRun
  constructor
  · intro hPublished
    by_contra hNot
    rw [Refreshed, not_or] at hNot
    obtain ⟨hFresh, hNone⟩ := hNot
    have hStart : (start.sysMgr minConfigVersion).Unpublished := by
      cases start with
      | existing m => exact absurd ⟨m, rfl⟩ hFresh
      | created _ _ _ _ _ => exact ⟨rfl, rfl⟩
    have hNever : Along step (fun s a => ¬ s.Refreshes a) (start.sysMgr minConfigVersion) acts :=
      along_of_splits fun before a after s₁ hSplit hBefore hRefreshes =>
        hNone ⟨before, a, after, s₁, hSplit, hBefore, hRefreshes⟩
    have hUnpublished : s.Unpublished :=
      run_invariant (fun _ _ _ hNot hInv hStep => hInv.step hNot hStep) hStart hNever hRun
    exact hUnpublished.not_published hPublished
  · rintro (⟨m, rfl⟩ | ⟨before, a, after, s₁, rfl, hBefore, hRefreshes⟩)
    · exact hKeep (TableMgr.deflateHashTable_published m) hAlong hRun
    · obtain ⟨-, -, hAfter⟩ := along_append hAlong hBefore
      obtain ⟨s₁', hBefore', hRest⟩ := run_append.mp hRun
      obtain rfl : s₁ = s₁' := Option.some.inj (hBefore.symm.trans hBefore')
      obtain ⟨s₂, hStep, hRun₂⟩ := run_cons_eq_some.mp hRest
      exact hKeep (published_of_refreshes hStep hRefreshes) (hAfter s₂ hStep) hRun₂

/-- The replies of a process that has just created its file, of one bucket and two
copies, carry no table at all. -/
theorem replies_empty_after_create :
    let s := StartUp.sysMgr 10 (.created 1 2 (by decide) (by decide) (by decide))
    run step s [] = some s ∧ s.getMetaResponse.tablebytes = [] ∧
      s.heartbeatResponse.tablebytes = [] ∧ s.tableMgr.cells .hash = [0, 0] :=
  ⟨rfl, rfl, rfl, rfl⟩

/-- After a quick rebuild they carry it. -/
theorem replies_exact_after_quick_rebuild :
    ∃ s, run step (StartUp.sysMgr 10 (.created 1 2 (by decide) (by decide) (by decide)))
        [.rebuildQuickTable [1, 2]] = some s ∧
      s.getMetaResponse.tablebytes = s.tableMgr.cells .hash := by
  refine ⟨_, rfl, ?_⟩
  have hAlong : Along step NotBehind
      (StartUp.sysMgr 10 (.created 1 2 (by decide) (by decide) (by decide)))
      [.rebuildQuickTable [1, 2]] := ⟨trivial, fun _ _ => trivial⟩
  exact ((replies_exact_iff _ 10 hAlong rfl).mpr
    (Or.inr ⟨[], _, [], _, rfl, rfl, trivial⟩)).1

/-- Two buckets get new slaves, and server 2 reports bucket 2, of which there is none:
the master of bucket 0 in `dHashTable` becomes 0, and the next heartbeat reply still
has the old one. -/
example :
    ∃ s, run step (StartUp.sysMgr 10 (.created 2 2 (by decide) (by decide) (by decide)))
        [.rebuild [1, 2] (fun _ => 0) 9, .rebuild [1, 2, 3, 4] (fun _ => 0) 9,
          .setMigratingHashtable 2 2] = some s ∧
      s.heartbeatResponse.tablebytes = [1, 2, 2, 1, 1, 2, 3, 4] ∧
      s.tableMgr.cells .dest = [0, 2, 3, 4] := run_reaches (by decide +kernel)

-- Versions

/-- The version that storage nodes are sent is not the last one before 0. -/
def BelowLast (s : SysMgr) : Prop := s.tableMgr.serverVersion + 1 < 2 ^ 32

instance (s : SysMgr) : Decidable s.BelowLast := inferInstanceAs (Decidable (_ < _))

/-- The version is later, or it and the tables that storage nodes are sent are the same. -/
def Since (s s' : SysMgr) : Prop :=
  s.tableMgr.serverVersion < s'.tableMgr.serverVersion ∨
    s'.tableMgr.serverVersion = s.tableMgr.serverVersion ∧
      s'.heartbeatResponse.tablebytes = s.heartbeatResponse.tablebytes

section Versions

variable {s s' s'' : SysMgr} {a : SysAction}

theorem lt_incrVersion (h : s.BelowLast) {v : Nat} (hv : v = s.tableMgr.serverVersion) :
    s.tableMgr.serverVersion < s.incrVersion v := by
  rw [hv, incrVersion, Nat.mod_eq_of_lt h]
  split <;> omega

/-- **Step lemma.** An operation that changes the tables raises the version. A restart renews the
copies, but they are the tables already. -/
theorem since_step (hPublished : s.tableMgr.Published) (hBelow : s.BelowLast)
    (hStep : s.step a = some s') : s.Since s' := by
  cases does_of_step hStep with
  | unchanged | turnedAway _ | repeated _ _ | waiting _ => exact .inr ⟨rfl, rfl⟩
  | @rebuilt upnodeList _ _ dest _ =>
    have hVersion : (s.rebuiltTables upnodeList dest).serverVersion = s.tableMgr.serverVersion := by
      unfold rebuiltTables
      dsimp only
      split_ifs <;> rfl
    exact .inl (lt_incrVersion hBelow hVersion)
  | quick => exact .inl (lt_incrVersion hBelow rfl)
  | @reported b _ _ _ _ _ =>
    -- the row is changed in the file, not in the copies
    obtain ⟨words, hWords, hFile⟩ := TableMgr.setMigratingRow_header s.tableMgr b
    unfold countDown
    rw [hFile]
    exact .inr ⟨rfl, rfl⟩
  | completed _ _ _ => exact .inl (lt_incrVersion hBelow rfl)
  | restarted => exact .inr ⟨rfl, hPublished.2.symm⟩

theorem Since.trans (h : s.Since s') (h' : s'.Since s'') : s.Since s'' := by
  rcases h, h' with ⟨hLater | hSame, hLater' | hSame'⟩
  · exact .inl (hLater.trans hLater')
  · exact .inl (hLater.trans_eq hSame'.1.symm)
  · exact .inl (hSame.1.symm.trans_lt hLater')
  · exact .inr ⟨hSame'.1.trans hSame.1, hSame'.2.trans hSame.2⟩

/-- **Versions follow the tables.** A storage node passes over a reply whose version is not above
the one it has, and misses nothing by it: from any moment to a later one, across rebuilds,
failures, reports and restarts, the version does not go down, and tables of the same version are
the same, as long as the version does not start again. -/
theorem versions_follow_tables {acts : List SysAction} (hPublished : s.tableMgr.Published)
    (hAlong : Along step (fun s a => s.NotBehind a ∧ s.BelowLast) s acts)
    (hRun : run step s acts = some s') :
    s.heartbeatResponse.serverversion ≤ s'.heartbeatResponse.serverversion ∧
      (s'.heartbeatResponse.serverversion = s.heartbeatResponse.serverversion →
        s'.heartbeatResponse.tablebytes = s.heartbeatResponse.tablebytes) := by
  have hKeeps : ∀ x a x', x.NotBehind a ∧ x.BelowLast → x.tableMgr.Published ∧ s.Since x →
      step x a = some x' → x'.tableMgr.Published ∧ s.Since x' := fun x a x' hP hInv hStep =>
    ⟨published_step hInv.1 hP.1 hStep, hInv.2.trans (since_step hInv.1 hP.2 hStep)⟩
  -- `Since` is kept from the first moment on, together with what `since_step` needs
  have hSince := (run_invariant hKeeps ⟨hPublished, .inr ⟨rfl, rfl⟩⟩ hAlong hRun).2
  rcases hSince with hLater | hSame
  · exact ⟨hLater.le, fun hVersion => absurd hVersion hLater.ne'⟩
  · exact ⟨hSame.1.ge, fun _ => hSame.2⟩

end Versions

/-- Server 3 takes the place of server 2, which gives the tables a later version; then a report is
taken down in the file and the server starts again, which gives the same version and tables. -/
theorem versions_follow_tables_restart :
    ∃ s s', run step (opened (TableMgr.create 2 2 (by decide) (by decide) (by decide)) 10)
        [.rebuild [1, 2] (fun _ => 0) 9, .rebuild [1, 3] (fun _ => 0) 9] = some s ∧
      run step s [.setMigratingHashtable 0 1, .restart 10] = some s' ∧
      (1 ≤ s.heartbeatResponse.serverversion ∧ s.heartbeatResponse.serverversion = 11) ∧
      s'.heartbeatResponse.tablebytes = s.heartbeatResponse.tablebytes := by
  have hReached : ∃ s,
      run step (opened (TableMgr.create 2 2 (by decide) (by decide) (by decide)) 10)
        [.rebuild [1, 2] (fun _ => 0) 9, .rebuild [1, 3] (fun _ => 0) 9] = some s ∧
      (s.heartbeatResponse.serverversion = 11 ∧ s.tableMgr.Published ∧
        Along step (fun s a => s.NotBehind a ∧ s.BelowLast) s
          [.setMigratingHashtable 0 1, .restart 10] ∧
        ((run step s [.setMigratingHashtable 0 1, .restart 10]).any fun s' =>
          decide (s'.heartbeatResponse.serverversion = 11)) = true) :=
    run_reaches (by decide +kernel)
  obtain ⟨s, hRun, hVersion, hPublished, hAlong, hAny⟩ := hReached
  obtain ⟨s', hRun', hVersion'⟩ := run_reaches hAny
  have hLater := (versions_follow_tables (TableMgr.deflateHashTable_published _)
    (by decide +kernel) hRun).1
  exact ⟨s, s', hRun, hRun', ⟨hLater, hVersion⟩,
    (versions_follow_tables hPublished hAlong hRun').2 (hVersion'.trans hVersion.symm)⟩

end SysMgr

end MyBase
