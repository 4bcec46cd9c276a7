import MyBase.Meta.NewTables

/-!
# MyBase — reports of finished migrations

A storage node learns from a heartbeat reply what it has to migrate, does so in a thread
of its own (`migrateRun`), and reports each bucket to the meta server. Replies and
reports travel for as long as they like. A report names its sender and the bucket; the
version of the table that the migration was computed from is not in it (`metaversion` is
0 in all reports), and `process` calls `setMigratingHashtable` without the check of
`doFinishMigrate`.

The model carries these versions along, beside the data of the code. A report can change
`mHashTable` only where it differs from `dHashTable`, and only `rebuild` makes them
differ:

* `Pending` — a property of all that has been computed from a table and has not been
  handled yet: replies, migrations at the nodes, reports;
* `Current` — the two tables are the same, or all that is pending was computed from the
  current table;
* `report_of_current_version` — in every run in which tables are rebuilt only when
  nothing is pending, a report that changes `mHashTable` is about the current version.

Without that a late report finishes a migration that its sender has never heard of
(`stale_report_applied`).
-/

namespace MyBase

open Lib List

-- The model

/-- `StorageServer`, as far as it is about migrations. -/
structure MigrateNode where
  metaVersion : Nat
  migrates : Migrates
  /-- The versions of the tables that the entries of `migrates` were computed from; no
  code reads this. -/
  computedFrom : Nat → List Nat
  /-- What `migrateRun` has left to do of `tmp_migrates`: buckets, with these versions. -/
  tmpMigrates : List (Nat × List Nat)

namespace MigrateNode

def start : MigrateNode where
  metaVersion := 0
  migrates := ∅
  computedFrom := fun _ => []
  tmpMigrates := []

/-- `hbCallback`, as far as it is about migrations. -/
def hbCallback (node : MigrateNode) (localServer : ServerId) (msg : HeartbeatResponse) :
    MigrateNode :=
  if msg.serverversion ≤ node.metaVersion then node
  else
    { node with
      metaVersion := msg.serverversion
      migrates := updateServerTable localServer msg.bucketcount msg.copycount msg.tablebytes
        node.migrates
      computedFrom := fun b =>
        if b ∈ (updateServerTable localServer msg.bucketcount msg.copycount msg.tablebytes ∅).keys
        then node.computedFrom b ++ [msg.serverversion]
        else node.computedFrom b }

/-- `tmp_migrates.swap(migrates)`. -/
def swapMigrates (node : MigrateNode) : MigrateNode :=
  { node with
    migrates := ∅
    computedFrom := fun _ => []
    tmpMigrates := node.migrates.keys.map fun b => (b, node.computedFrom b) }

end MigrateNode

/-- `KvRequestFinishMigration`, and the versions that the migration was computed from. -/
structure FinishMigration where
  serverid : ServerId
  bucketid : Nat
  versions : List Nat
  deriving DecidableEq, Repr

/-- The meta server, the storage nodes and the messages in flight. -/
structure Migrating where
  sysMgr : SysMgr
  nodes : OrdMap ServerId MigrateNode
  replies : List (ServerId × HeartbeatResponse)
  reports : List FinishMigration

inductive MigratingAction
  /-- The meta server changes its tables, or is restarted. -/
  | sys (a : SysAction)
  /-- A storage node is started, for the first time or again. -/
  | start (server : ServerId)
  /-- The meta server answers a heartbeat. -/
  | heartbeat (server : ServerId)
  /-- The `k`-th reply arrives; with `again` it can arrive once more. -/
  | hbCallback (k : Nat) (again : Bool)
  /-- `migrateRun` takes what there is to migrate. -/
  | swap (server : ServerId)
  /-- `migrateRun` reports the next bucket. -/
  | finish (server : ServerId)
  /-- The `k`-th report arrives; with `again` it can arrive once more. -/
  | process (k : Nat) (again : Bool)
  | loseReply (k : Nat)
  | loseReport (k : Nat)

namespace Migrating

/-- One step. The process of the meta server ends in `none` of `SysMgr.step`; other steps
are refused where there is nothing to do. -/
def step (s : Migrating) : MigratingAction → Option Migrating
  | .sys (.setMigratingHashtable _ _) => none
  | .sys a => (s.sysMgr.step a).map fun sys => { s with sysMgr := sys }
  | .start server =>
    some { s with nodes := (s.nodes.erase server).emplace server MigrateNode.start }
  | .heartbeat server =>
    some { s with replies := s.replies ++ [(server, s.sysMgr.heartbeatResponse)] }
  | .hbCallback k again =>
    match s.replies[k]? with
    | none => none
    | some (server, msg) =>
      some { s with
        nodes := s.nodes.modify server fun node => node.hbCallback server msg
        replies := if again then s.replies else s.replies.eraseIdx k }
  | .swap server =>
    match s.nodes.find? server with
    | none => none
    | some node =>
      if node.tmpMigrates = [] then
        some { s with nodes := s.nodes.modify server MigrateNode.swapMigrates }
      else none
  | .finish server =>
    match s.nodes.find? server with
    | none => none
    | some node =>
      match node.tmpMigrates with
      | [] => none
      | (b, versions) :: rest =>
        some { s with
          nodes := s.nodes.modify server fun node => { node with tmpMigrates := rest }
          reports := s.reports ++ [⟨server, b, versions⟩] }
  | .process k again =>
    match s.reports[k]? with
    | none => none
    | some report =>
      (s.sysMgr.setMigratingHashtable report.bucketid report.serverid).map fun sys =>
        { s with
          sysMgr := sys
          reports := if again then s.reports else s.reports.eraseIdx k }
  | .loseReply k => some { s with replies := s.replies.eraseIdx k }
  | .loseReport k => some { s with reports := s.reports.eraseIdx k }

/-- A new meta server, and no storage node yet. -/
def created (bucketCount copyCount : Nat) (hBuckets : 0 < bucketCount) (hCopies : 0 < copyCount)
    (hFits : 24 * (copyCount * bucketCount) + 36 < 2 ^ 31) (minConfigVersion : Nat) :
    Migrating where
  sysMgr := SysMgr.created bucketCount copyCount hBuckets hCopies hFits minConfigVersion
  nodes := ∅
  replies := []
  reports := []

/-- Nothing is in flight, and no node has anything to migrate or to report. -/
def Quiet (s : Migrating) : Prop :=
  s.replies = [] ∧ s.reports = [] ∧
    ∀ e ∈ s.nodes.entries, e.2.migrates.entries = [] ∧ e.2.tmpMigrates = []

instance (s : Migrating) : Decidable s.Quiet := by
  unfold Quiet
  infer_instance

/-- Once there are tables, they are rebuilt only when nothing is pending. -/
def Settled (s : Migrating) : MigratingAction → Prop
  | .sys (.rebuild upnodeList rand fuel) =>
    s.sysMgr.firstRun = false → s.sysMgr.Refreshes (.rebuild upnodeList rand fuel) → s.Quiet
  | _ => True

instance (s : Migrating) (a : MigratingAction) : Decidable (s.Settled a) := by
  unfold Settled
  split <;> infer_instance

-- All that is pending

/-- Replies in flight are like `R`; migrations and reports, by bucket and versions, are
like `P`. -/
structure Pending (R : HeartbeatResponse → Prop) (P : Nat → List Nat → Prop) (s : Migrating) :
    Prop where
  replies : ∀ r ∈ s.replies, R r.2
  migrates : ∀ server node, s.nodes.find? server = some node →
    ∀ b ∈ node.migrates.keys, P b (node.computedFrom b)
  backlog : ∀ server node, s.nodes.find? server = some node → ∀ e ∈ node.tmpMigrates, P e.1 e.2
  reports : ∀ r ∈ s.reports, P r.bucketid r.versions

/-- What is computed from a reply like `R` is like `P`. -/
structure Adds (R : HeartbeatResponse → Prop) (P : Nat → List Nat → Prop) : Prop where
  copies : ∀ msg, R msg → 0 < msg.copycount
  adds : ∀ msg, R msg → ∀ b < msg.bucketcount, ∀ versions, P b (versions ++ [msg.serverversion])

section Steps

variable {R : HeartbeatResponse → Prop} {P : Nat → List Nat → Prop} {s s' : Migrating}
  {a : MigratingAction}

theorem Pending.of_quiet (h : s.Quiet) : s.Pending R P where
  replies := by
    rw [h.1]
    exact fun r hr => absurd hr not_mem_nil
  migrates := by
    intro server node hFind b hb
    have hEmpty := (h.2.2 _ (OrdMap.mem_of_find? hFind)).1
    rw [OrdMap.keys, hEmpty] at hb
    exact absurd hb not_mem_nil
  backlog := by
    intro server node hFind e he
    rw [(h.2.2 _ (OrdMap.mem_of_find? hFind)).2] at he
    exact absurd he not_mem_nil
  reports := by
    rw [h.2.1]
    exact fun r hr => absurd hr not_mem_nil

/-- The meta server is not part of what is pending. -/
theorem Pending.withSysMgr (h : s.Pending R P) (sys : SysMgr) :
    Pending R P { s with sysMgr := sys } :=
  ⟨h.replies, h.migrates, h.backlog, h.reports⟩

variable {server : ServerId} {k : Nat} {node : MigrateNode} {again : Bool} {msg : HeartbeatResponse}

theorem mem_of_mem_left {α : Type} {l : List α} {x : α}
    (h : x ∈ if again then l else l.eraseIdx k) : x ∈ l := by
  split at h
  · exact h
  · exact mem_of_mem_eraseIdx h

theorem find?_modify_cases {nodes : OrdMap ServerId MigrateNode} {server' : ServerId}
    {f : MigrateNode → MigrateNode} (h : (nodes.modify server f).find? server' = some node) :
    nodes.find? server' = some node ∨
      ∃ old, nodes.find? server = some old ∧ server' = server ∧ node = f old := by
  rw [OrdMap.find?_modify] at h
  split at h
  · rename_i hSame
    obtain ⟨old, hOld, rfl⟩ := Option.map_eq_some_iff.mp h
    exact Or.inr ⟨old, hOld, hSame, rfl⟩
  · exact Or.inl h

/-- A node handles a reply: what it enters is computed from the reply. -/
theorem Pending.hbCallback_migrates (h : s.Pending R P) (hAdds : Adds R P)
    (hFind : s.nodes.find? server = some node) (hMsg : R msg) :
    ∀ b ∈ (node.hbCallback server msg).migrates.keys,
      P b ((node.hbCallback server msg).computedFrom b) := by
  have hCopies := hAdds.copies msg hMsg
  unfold MigrateNode.hbCallback
  split
  · exact h.migrates server node hFind
  · intro b hb
    dsimp only at hb ⊢
    split
    · rename_i hNew
      rw [mem_keys_updateServerTable server hCopies, or_iff_right (by simp [OrdMap.keys])] at hNew
      exact hAdds.adds msg hMsg b hNew.1 _
    · rename_i hOld
      rw [mem_keys_updateServerTable server hCopies, or_iff_right (by simp [OrdMap.keys])] at hOld
      rw [mem_keys_updateServerTable server hCopies, or_iff_left hOld] at hb
      exact h.migrates server node hFind b hb

theorem hbCallback_backlog (node : MigrateNode) (server : ServerId) (msg : HeartbeatResponse) :
    (node.hbCallback server msg).tmpMigrates = node.tmpMigrates := by
  unfold MigrateNode.hbCallback
  split <;> rfl

/-- A node adds what its reply asks for. -/
theorem Pending.hbCallback (h : s.Pending R P) (hAdds : Adds R P) (again : Bool)
    (hMsg : s.replies[k]? = some (server, msg)) :
    Pending R P { s with
      nodes := s.nodes.modify server fun node => node.hbCallback server msg
      replies := if again then s.replies else s.replies.eraseIdx k } where
  replies := fun r hr => h.replies r (mem_of_mem_left hr)
  migrates := by
    intro server' node hFind
    rcases find?_modify_cases hFind with hOld | ⟨old, hOld, -, rfl⟩
    · exact h.migrates server' node hOld
    · exact h.hbCallback_migrates hAdds hOld (h.replies _ (mem_of_getElem? hMsg))
  backlog := by
    intro server' node hFind
    rcases find?_modify_cases hFind with hOld | ⟨old, hOld, -, rfl⟩
    · exact h.backlog server' node hOld
    · rw [hbCallback_backlog]
      exact h.backlog server old hOld
  reports := h.reports

/-- A node that starts again has no migrations. -/
theorem Pending.start (h : s.Pending R P) (server : ServerId) :
    Pending R P
      { s with nodes := (s.nodes.erase server).emplace server MigrateNode.start } := by
  have hNodes : ∀ server' node,
      ((s.nodes.erase server).emplace server MigrateNode.start).find? server' = some node →
        s.nodes.find? server' = some node ∨ node = MigrateNode.start := by
    intro server' node hFind
    rw [OrdMap.find?_emplace, OrdMap.find?_erase, if_pos rfl, OrdMap.find?_erase] at hFind
    split at hFind
    · exact Or.inr (Option.some.inj hFind).symm
    · exact Or.inl hFind
  refine ⟨h.replies, ?_, ?_, h.reports⟩
  · intro server' node hFind
    rcases hNodes server' node hFind with hOld | rfl
    · exact h.migrates server' node hOld
    · exact fun b hb => absurd hb not_mem_nil
  · intro server' node hFind
    rcases hNodes server' node hFind with hOld | rfl
    · exact h.backlog server' node hOld
    · exact fun e he => absurd he not_mem_nil

theorem Pending.swap (h : s.Pending R P) (server : ServerId) :
    Pending R P { s with nodes := s.nodes.modify server MigrateNode.swapMigrates } where
  replies := h.replies
  migrates := by
    intro server' node hFind
    rcases find?_modify_cases hFind with hOld | ⟨old, -, -, rfl⟩
    · exact h.migrates server' node hOld
    · exact fun b hb => absurd hb not_mem_nil
  backlog := by
    intro server' node hFind
    rcases find?_modify_cases hFind with hOld | ⟨old, hOld, -, rfl⟩
    · exact h.backlog server' node hOld
    · intro e he
      obtain ⟨b, hb, rfl⟩ := mem_map.mp he
      exact h.migrates server old hOld b hb
  reports := h.reports

/-- A finished migration becomes a report. -/
theorem Pending.finish (h : s.Pending R P) (hNode : s.nodes.find? server = some node) {b : Nat}
    {versions : List Nat} {rest : List (Nat × List Nat)}
    (hFirst : node.tmpMigrates = (b, versions) :: rest) :
    Pending R P { s with
      nodes := s.nodes.modify server fun node => { node with tmpMigrates := rest }
      reports := s.reports ++ [⟨server, b, versions⟩] } where
  replies := h.replies
  migrates := by
    intro server' node' hFind
    rcases find?_modify_cases hFind with hOld | ⟨old, hOld, -, rfl⟩
    · exact h.migrates server' node' hOld
    · exact h.migrates server old hOld
  backlog := by
    intro server' node' hFind
    rcases find?_modify_cases hFind with hOld | ⟨old, hOld, -, rfl⟩
    · exact h.backlog server' node' hOld
    · intro e he
      refine h.backlog server node hNode e ?_
      rw [hFirst]
      exact mem_cons_of_mem _ he
  reports := by
    intro r hr
    rcases mem_append.mp hr with hOld | hNew
    · exact h.reports r hOld
    · rw [mem_singleton] at hNew
      subst hNew
      refine h.backlog server node hNode (b, versions) ?_
      rw [hFirst]
      exact mem_cons_self

theorem sys_of_step {a : SysAction} (h : s.step (.sys a) = some s') :
    (∀ b server, a ≠ .setMigratingHashtable b server) ∧
      ∃ sys, s.sysMgr.step a = some sys ∧ s' = { s with sysMgr := sys } := by
  have hMap : (∀ b server, a ≠ .setMigratingHashtable b server) ∧
      ((s.sysMgr.step a).map fun sys => { s with sysMgr := sys }) = some s' := by
    cases a with
    | setMigratingHashtable b server => cases h
    | _ => exact ⟨fun _ _ hEq => (nomatch hEq), h⟩
  obtain ⟨sys, hSys, rfl⟩ := Option.map_eq_some_iff.mp hMap.2
  exact ⟨hMap.1, sys, hSys, rfl⟩

theorem process_of_step (h : s.step (.process k again) = some s') :
    ∃ report sys, s.reports[k]? = some report ∧
      s.sysMgr.setMigratingHashtable report.bucketid report.serverid = some sys ∧
      s' = { s with
        sysMgr := sys
        reports := if again then s.reports else s.reports.eraseIdx k } := by
  simp only [Migrating.step] at h
  split at h
  · cases h
  · rename_i report hReport
    obtain ⟨sys, hSys, rfl⟩ := Option.map_eq_some_iff.mp h
    exact ⟨report, sys, hReport, hSys, rfl⟩

/-- **Step lemma.** What is pending stays as it is or is computed from the current
tables. -/
theorem Pending.step (h : s.Pending R P) (hAdds : Adds R P)
    (hReply : R s.sysMgr.heartbeatResponse) (hStep : s.step a = some s') : s'.Pending R P := by
  cases a with
  | sys a =>
    obtain ⟨-, sys, -, rfl⟩ := sys_of_step hStep
    exact h.withSysMgr sys
  | start server =>
    cases hStep
    exact h.start server
  | heartbeat server =>
    -- the reply is computed from the current tables
    cases hStep
    refine ⟨?_, h.migrates, h.backlog, h.reports⟩
    intro r hr
    rcases mem_append.mp hr with hOld | hNew
    · exact h.replies r hOld
    · rw [mem_singleton.mp hNew]
      exact hReply
  | hbCallback k again =>
    simp only [Migrating.step] at hStep
    split at hStep
    · cases hStep
    · rename_i server msg hMsg
      cases hStep
      exact h.hbCallback hAdds again hMsg
  | swap server =>
    simp only [Migrating.step] at hStep
    split at hStep
    · cases hStep
    · split at hStep
      · cases hStep
        exact h.swap server
      · cases hStep
  | finish server =>
    simp only [Migrating.step] at hStep
    split at hStep
    · cases hStep
    · rename_i node hNode
      split at hStep
      · cases hStep
      · rename_i b versions rest hFirst
        cases hStep
        exact h.finish hNode hFirst
  | process k again =>
    obtain ⟨-, sys, -, -, rfl⟩ := process_of_step hStep
    exact ⟨h.replies, h.migrates, h.backlog, fun r hr => h.reports r (mem_of_mem_left hr)⟩
  | loseReply k =>
    cases hStep
    exact ⟨fun r hr => h.replies r (mem_of_mem_eraseIdx hr), h.migrates, h.backlog, h.reports⟩
  | loseReport k =>
    cases hStep
    exact ⟨h.replies, h.migrates, h.backlog, fun r hr => h.reports r (mem_of_mem_eraseIdx hr)⟩

end Steps

-- Versions

/-- A message in flight is about a table of this size, and so is what is computed. -/
def Sized (bucketCount : Nat) (s : Migrating) : Prop :=
  s.Pending (fun msg => 0 < msg.copycount ∧ msg.bucketcount = bucketCount)
    fun b _ => b < bucketCount

/-- All that is pending was computed from the tables of this version. -/
def ComputedFrom (version : Nat) (s : Migrating) : Prop :=
  s.Pending (fun msg => 0 < msg.copycount ∧ msg.serverversion = version)
    fun _ versions => version ∈ versions

/-- There is nothing to migrate, or all that is pending was computed from the current
tables. -/
structure Current (s : Migrating) : Prop where
  sized : s.Sized s.sysMgr.tableMgr.serverBucketCount
  versions : (∀ b < s.sysMgr.tableMgr.serverBucketCount, ¬ s.sysMgr.tableMgr.RowDiffers b) ∨
    s.ComputedFrom s.sysMgr.tableMgr.serverVersion

section Current

variable {s s' : Migrating} {a : MigratingAction}

theorem Sized.step {bucketCount : Nat} (h : s.Sized bucketCount)
    (hSize : s.sysMgr.tableMgr.serverBucketCount = bucketCount) (hStep : s.step a = some s') :
    s'.Sized bucketCount := by
  refine Pending.step h ⟨fun msg hMsg => hMsg.1, ?_⟩ ⟨s.sysMgr.tableMgr.copies_pos, hSize⟩ hStep
  intro msg hMsg b hb _
  rwa [← hMsg.2]

theorem ComputedFrom.step {version : Nat} (h : s.ComputedFrom version)
    (hVersion : s.sysMgr.tableMgr.serverVersion = version) (hStep : s.step a = some s') :
    s'.ComputedFrom version := by
  refine Pending.step h ⟨fun msg hMsg => hMsg.1, ?_⟩ ⟨s.sysMgr.tableMgr.copies_pos, hVersion⟩ hStep
  intro msg hMsg b _ versions
  rw [hMsg.2]
  exact mem_append_right _ mem_cons_self

theorem Current.of_same (h : s.Current) (hSys : s'.sysMgr = s.sysMgr) (hStep : s.step a = some s') :
    s'.Current := by
  refine ⟨?_, ?_⟩
  · rw [hSys]
    exact h.sized.step rfl hStep
  · rw [hSys]
    exact h.versions.imp_right fun hFrom => hFrom.step rfl hStep

/-- A report that changes the row is handled: neither the size nor the version changes. -/
theorem Current.process (h : s.Current) {k : Nat} {again : Bool}
    (hStep : s.step (.process k again) = some s') : s'.Current := by
  obtain ⟨report, sys, hReport, hSys, hEq⟩ := process_of_step hStep
  have hb := h.sized.reports report (mem_of_getElem? hReport)
  have hDoes := SysMgr.setMigratingHashtable_does hSys
  generalize hAction : SysAction.setMigratingHashtable report.bucketid report.serverid = sysAction
    at hDoes
  cases hDoes with
  | turnedAway _ => exact h.of_same (by rw [hEq]) hStep
  | repeated _ _ => exact h.of_same (by rw [hEq]) hStep
  | @reported b server count hAccepts hChanged hFind =>
    cases hAction
    have hSpec := TableMgr.setMigratingRow_spec s.sysMgr.tableMgr hb
    have hBuckets : s'.sysMgr.tableMgr.serverBucketCount = s.sysMgr.tableMgr.serverBucketCount := by
      rw [hEq]
      exact hSpec.header.bucketCount
    have hVersion : s'.sysMgr.tableMgr.serverVersion = s.sysMgr.tableMgr.serverVersion := by
      rw [hEq]
      exact hSpec.header.serverVersion
    refine ⟨hBuckets ▸ h.sized.step rfl hStep, Or.inr ?_⟩
    rw [hVersion]
    -- the row differs, so there is something to migrate
    refine ComputedFrom.step (h.versions.resolve_left fun hSame => ?_) rfl hStep
    exact hSame _ hb (hSpec.ret.mp hChanged)
  | _ => cases hAction

/-- **Step lemma.** -/
theorem Current.step (h : s.Current) (hSettled : s.Settled a) (hStep : s.step a = some s') :
    s'.Current := by
  cases a with
  | sys a =>
    obtain ⟨hNoReport, sys, hSys, rfl⟩ := sys_of_step hStep
    have hBuckets : sys.tableMgr.serverBucketCount = s.sysMgr.tableMgr.serverBucketCount :=
      (SysMgr.does_of_step hSys).bucketCount
    refine ⟨hBuckets ▸ h.sized.step rfl hStep, ?_⟩
    show (∀ b < sys.tableMgr.serverBucketCount, ¬ sys.tableMgr.RowDiffers b) ∨
      ComputedFrom sys.tableMgr.serverVersion { s with sysMgr := sys }
    cases SysMgr.does_of_step hSys with
    | unchanged => exact h.versions.imp_right fun hFrom => hFrom.step rfl hStep
    | @rebuilt upnodeList rand fuel dest hOk =>
      -- the first table is written to both; later ones wait for quiet
      by_cases hFirst : s.sysMgr.firstRun = true
      · exact Or.inl fun _ hb => SysMgr.writeTables_first_same hFirst dest hb
      · have hQuiet : s.Quiet := hSettled (by simpa using hFirst) ⟨dest, hOk⟩
        exact Or.inr (Pending.withSysMgr (Pending.of_quiet hQuiet) _)
    | quick => exact Or.inl fun _ hb => SysMgr.rebuildQuickTable_same hb
    | turnedAway _ => exact absurd rfl (hNoReport _ _)
    | repeated _ _ => exact absurd rfl (hNoReport _ _)
    | reported _ _ _ => exact absurd rfl (hNoReport _ _)
    | waiting _ => exact h.versions.imp_right fun hFrom => hFrom.step rfl hStep
    | completed _ _ hSame => exact Or.inl fun _ hb => SysMgr.complete_same hSame hb
    | restarted => exact h.versions.imp_right fun hFrom => hFrom.step rfl hStep
  | process k again => exact h.process hStep
  | start server => exact h.of_same (by cases hStep; rfl) hStep
  | heartbeat server => exact h.of_same (by cases hStep; rfl) hStep
  | loseReply k => exact h.of_same (by cases hStep; rfl) hStep
  | loseReport k => exact h.of_same (by cases hStep; rfl) hStep
  | hbCallback k again =>
    refine h.of_same ?_ hStep
    simp only [Migrating.step] at hStep
    split at hStep <;> cases hStep
    rfl
  | swap server =>
    refine h.of_same ?_ hStep
    simp only [Migrating.step] at hStep
    split at hStep
    · cases hStep
    · split at hStep <;> cases hStep
      rfl
  | finish server =>
    refine h.of_same ?_ hStep
    simp only [Migrating.step] at hStep
    split at hStep
    · cases hStep
    · split at hStep <;> cases hStep
      rfl

end Current

theorem created_current (bucketCount copyCount : Nat) (hBuckets : 0 < bucketCount)
    (hCopies : 0 < copyCount) (hFits : 24 * (copyCount * bucketCount) + 36 < 2 ^ 31)
    (minConfigVersion : Nat) :
    (created bucketCount copyCount hBuckets hCopies hFits minConfigVersion).Current := by
  have hQuiet : (created bucketCount copyCount hBuckets hCopies hFits minConfigVersion).Quiet :=
    ⟨rfl, rfl, fun _ he => absurd he not_mem_nil⟩
  exact ⟨Pending.of_quiet hQuiet, Or.inr (Pending.of_quiet hQuiet)⟩

/-- In every run from a new file in which tables are rebuilt only when nothing is
pending, a report that passes the checks of `setMigratingHashtable` and changes the row
of its bucket was computed from the version that is current when it is handled, and its
sender is the master of the bucket in `mHashTable`. -/
theorem report_of_current_version (bucketCount copyCount : Nat) (hBuckets : 0 < bucketCount)
    (hCopies : 0 < copyCount) (hFits : 24 * (copyCount * bucketCount) + 36 < 2 ^ 31)
    (minConfigVersion : Nat) {acts : List MigratingAction} {s : Migrating}
    (hAlong : Along step Settled
      (created bucketCount copyCount hBuckets hCopies hFits minConfigVersion) acts)
    (hRun : run step (created bucketCount copyCount hBuckets hCopies hFits minConfigVersion) acts =
      some s) {report : FinishMigration} (hReport : report ∈ s.reports)
    (hAccepts : s.sysMgr.Accepts report.bucketid report.serverid)
    (hChanged : (s.sysMgr.tableMgr.setMigratingRow report.bucketid).2 = true) :
    s.sysMgr.tableMgr.serverVersion ∈ report.versions ∧
      report.bucketid < s.sysMgr.tableMgr.serverBucketCount ∧
      s.sysMgr.tableMgr.mHashTable 0 report.bucketid = report.serverid := by
  have hCurrent : s.Current := run_invariant
    (fun _ _ _ hSettled hInv hStep => hInv.step hSettled hStep)
    (created_current bucketCount copyCount hBuckets hCopies hFits minConfigVersion) hAlong hRun
  have hb := hCurrent.sized.reports report hReport
  refine ⟨?_, hb, ?_⟩
  · have hFrom := hCurrent.versions.resolve_left fun hSame =>
      hSame _ hb ((TableMgr.setMigratingRow_spec _ hb).ret.mp hChanged)
    exact hFrom.reports report hReport
  · show s.sysMgr.tableMgr.cell .mig (0 * _ + report.bucketid) = report.serverid
    rw [Nat.zero_mul, Nat.zero_add]
    exact hAccepts.2.2

/-- Server 1 has to copy bucket 0 to server 3. Its report is still on its way when server
3 is replaced by server 4 and the tables are rebuilt. The report, computed from version
11, is applied to version 12: `mHashTable` says that the bucket is on server 4. -/
theorem stale_report_applied :
    ∃ s, run step (created 1 2 (by decide) (by decide) (by decide) 10)
        [.start 1, .sys (.rebuild [1, 2] (fun _ => 0) 3), .sys (.rebuild [1, 3] (fun _ => 0) 3),
          .heartbeat 1, .hbCallback 0 false, .swap 1, .finish 1,
          .sys (.rebuild [1, 4] (fun _ => 0) 3)] = some s ∧
      s.reports = [⟨1, 0, [11]⟩] ∧ s.sysMgr.tableMgr.serverVersion = 12 ∧
      s.sysMgr.tableMgr.cells .mig = [1, 0] ∧
      ((s.step (.process 0 false)).map fun s' => s'.sysMgr.tableMgr.cells .mig) = some [1, 4] :=
  run_reaches (by decide +kernel)

/-- The same report, in time. -/
theorem report_of_current_version_one_bucket :
    ∃ s, run step (created 1 2 (by decide) (by decide) (by decide) 10)
        [.start 1, .sys (.rebuild [1, 2] (fun _ => 0) 3), .sys (.rebuild [1, 3] (fun _ => 0) 3),
          .heartbeat 1, .hbCallback 0 false, .swap 1, .finish 1] = some s ∧
      s.reports = [⟨1, 0, [11]⟩] ∧ s.sysMgr.tableMgr.serverVersion ∈ [11] := by
  refine run_reaches_then (Q := fun s => s.reports = [⟨1, 0, [11]⟩] ∧ s.sysMgr.Accepts 0 1 ∧
    (s.sysMgr.tableMgr.setMigratingRow 0).2 = true) (by decide +kernel) ?_
  rintro s hRun ⟨hReports, hAccepts, hChanged⟩
  have hMem : (⟨1, 0, [11]⟩ : FinishMigration) ∈ s.reports := by
    rw [hReports]
    exact mem_cons_self
  exact ⟨hReports, (report_of_current_version 1 2 (by decide) (by decide) (by decide) 10
    (by decide +kernel) hRun hMem hAccepts hChanged).1⟩

end Migrating

end MyBase
