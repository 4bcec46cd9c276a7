import MyBase.Meta.TableBuilder

/-!
# MyBase — what a storage node has to migrate

A heartbeat reply brings a storage node the published table and the planned one, in one
array. For the buckets it is the master of, the node looks up which servers of the
planned row are not in the published one (`calculateMigrates`), and enters them in
`migrates`.

* `mem_keys_updateServerTable` — the buckets that are entered.
-/

namespace MyBase

open Lib

/-- `std::map<uint32_t, std::vector<uint64_t>>`. -/
abbrev Migrates := OrdMap Nat (List ServerId)

/-- `migrates[index].push_back(server)`. -/
def pushMigrate (index : Nat) (server : ServerId) (migrates : Migrates) : Migrates :=
  (migrates.emplace index []).modify index (· ++ [server])

/-- `table[i]`. -/
def tableWord (table : List ServerId) (i : Nat) : ServerId := table.getD i 0

/-- The server of a copy of the planned row is not in the published row. -/
def needMigrate (bucketCount copyCount : Nat) (table : List ServerId) (index i : Nat) : Bool :=
  (List.range copyCount).all fun j =>
    tableWord table (bucketCount * copyCount + (index + bucketCount * i)) ≠
      tableWord table (index + bucketCount * j)

def calculateMigrates (bucketCount copyCount : Nat) (table : List ServerId) (index : Nat)
    (migrates : Migrates) : Migrates :=
  (List.range copyCount).foldl
    (fun migrates i =>
      if needMigrate bucketCount copyCount table index i then
        pushMigrate index (tableWord table (bucketCount * copyCount + (index + bucketCount * i)))
          migrates
      else migrates)
    migrates

def updateServerTable (localServer : ServerId) (bucketCount copyCount : Nat)
    (table : List ServerId) (migrates : Migrates) : Migrates :=
  (List.range (copyCount * bucketCount)).foldl
    (fun migrates i =>
      if localServer = tableWord table i ∧ i < bucketCount ∧
          table.length > copyCount * bucketCount then
        calculateMigrates bucketCount copyCount table i migrates
      else migrates)
    migrates

-- Which buckets are entered

theorem mem_keys_pushMigrate {index b : Nat} {server : ServerId} {migrates : Migrates} :
    b ∈ (pushMigrate index server migrates).keys ↔ b = index ∨ b ∈ migrates.keys := by
  unfold pushMigrate
  rw [OrdMap.keys_modify, ← OrdMap.find?_isSome_iff, ← OrdMap.find?_isSome_iff,
    OrdMap.find?_emplace]
  split
  · rename_i hb
    simp [hb]
  · rename_i hb
    simp [hb]

variable {bucketCount copyCount : Nat} {table : List ServerId} {migrates : Migrates}

/-- A bucket is entered if one of its copies moves. -/
theorem mem_keys_calculateMigrates {index b : Nat} :
    b ∈ (calculateMigrates bucketCount copyCount table index migrates).keys ↔
      b ∈ migrates.keys ∨
        (b = index ∧ ∃ i < copyCount, needMigrate bucketCount copyCount table index i = true) := by
  unfold calculateMigrates
  rw [OrdMap.mem_keys_foldl fun i b => b = index ∧
    needMigrate bucketCount copyCount table index i = true]
  · simp only [List.mem_range]
    refine or_congr_right ⟨?_, ?_⟩
    · rintro ⟨i, hi, hb, hNeed⟩
      exact ⟨hb, i, hi, hNeed⟩
    · rintro ⟨hb, i, hi, hNeed⟩
      exact ⟨i, hi, hb, hNeed⟩
  · intro m i b
    split
    · rename_i hNeed
      rw [mem_keys_pushMigrate, or_comm]
      simp [hNeed]
    · rename_i hNeed
      simp [hNeed]

/-- **The buckets that are entered**: those the node is the published master of and
some server of whose planned row is new. -/
theorem mem_keys_updateServerTable (localServer : ServerId) (hCopies : 0 < copyCount) {b : Nat} :
    b ∈ (updateServerTable localServer bucketCount copyCount table migrates).keys ↔
      b ∈ migrates.keys ∨ (b < bucketCount ∧ localServer = tableWord table b ∧
        table.length > copyCount * bucketCount ∧
        ∃ i < copyCount, ∀ j < copyCount,
          tableWord table (bucketCount * copyCount + (b + bucketCount * i)) ≠
            tableWord table (b + bucketCount * j)) := by
  unfold updateServerTable
  rw [OrdMap.mem_keys_foldl fun i b => (localServer = tableWord table i ∧ i < bucketCount ∧
    table.length > copyCount * bucketCount) ∧ b = i ∧
      ∃ i' < copyCount, needMigrate bucketCount copyCount table i i' = true]
  · have hNeed : ∀ i, needMigrate bucketCount copyCount table b i = true ↔ ∀ j < copyCount,
        tableWord table (bucketCount * copyCount + (b + bucketCount * i)) ≠
          tableWord table (b + bucketCount * j) := by
      intro i
      simp [needMigrate]
    simp only [List.mem_range]
    refine or_congr_right ⟨?_, ?_⟩
    · rintro ⟨i, -, ⟨hServer, hLt, hLength⟩, rfl, i', hi', hNeed'⟩
      exact ⟨hLt, hServer, hLength, i', hi', (hNeed i').mp hNeed'⟩
    · rintro ⟨hLt, hServer, hLength, i', hi', hNew⟩
      exact ⟨b, lt_of_lt_of_le hLt (Nat.le_mul_of_pos_left _ hCopies), ⟨hServer, hLt, hLength⟩,
        rfl, i', hi', (hNeed i').mpr hNew⟩
  · intro m i b
    split
    · rename_i hHere
      rw [mem_keys_calculateMigrates, and_iff_right hHere]
    · rename_i hHere
      simp [hHere]

end MyBase
