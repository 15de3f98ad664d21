import ReputationFirewall.Shared.KeyedStore

set_option autoImplicit false

namespace GaugeVec

open KeyedStore

variable {α K L : Type} [DecidableEq K] [DecidableEq L]

abbrev Gauges (L : Type) := Store L Int

def setAll (order : HashOrder K) (label : K → L) (gauges : Gauges L) (counts : Store K Nat) : Gauges L :=
  insertAll gauges ((order.iterate counts).map fun entry => (label entry.1, (entry.2 : Int)))

/-- The table counts the items of each class that occurs. -/
def Counts (classOf : α → K) (items : List α) (counts : Store K Nat) : Prop :=
  ∀ key, counts.lookup key =
    if key ∈ items.map classOf then some (items.countP fun item => classOf item = key) else none

/-- Every series shows the number of items with its label. -/
def Shows (labelOf : α → L) (items : List α) (gauges : Gauges L) : Prop :=
  ∀ label value, gauges.lookup label = some value → value = items.countP fun item => labelOf item = label

section Lookup

variable (order : HashOrder K) {label : K → L} (gauges : Gauges L) (counts : Store K Nat)

omit [DecidableEq L] in
theorem mem_setLabels (other : L) :
    other ∈ ((order.iterate counts).map fun entry => (label entry.1, (entry.2 : Int))).map Prod.fst ↔
      ∃ key ∈ counts, label key = other := by
  rw [List.map_map, List.mem_map]
  constructor
  · rintro ⟨⟨key, count⟩, listed, same⟩
    exact ⟨key, lookup_eq_some_mem ((order.mem_iterate counts key count).mp listed), same⟩
  · rintro ⟨key, member, same⟩
    obtain ⟨count, found⟩ := Option.isSome_iff_exists.mp (AList.lookup_isSome.mpr member)
    exact ⟨(key, count), (order.mem_iterate counts key count).mpr found, same⟩

theorem mem_setAll (other : L) :
    other ∈ setAll order label gauges counts ↔ other ∈ gauges ∨ ∃ key ∈ counts, label key = other := by
  rw [setAll, mem_insertAll, mem_setLabels, or_comm]

theorem lookup_setAll_set (injective : Function.Injective label) {key : K} {count : Nat}
    (counted : counts.lookup key = some count) :
    (setAll order label gauges counts).lookup (label key) = some (count : Int) := by
  obtain ⟨value, listed, found⟩ := lookup_insertAll_present gauges _ _
    ((mem_setLabels order counts (label key)).mpr ⟨key, lookup_eq_some_mem counted, rfl⟩)
  obtain ⟨⟨other, amount⟩, iterated, same⟩ := List.mem_map.mp listed
  obtain ⟨sameLabel, rfl⟩ := Prod.mk.inj same
  obtain rfl : other = key := injective sameLabel
  rw [order.mem_iterate, counted] at iterated
  rw [setAll, found, Option.some.inj iterated]

theorem lookup_setAll_kept {other : L} (unset : ∀ key ∈ counts, label key ≠ other) :
    (setAll order label gauges counts).lookup other = gauges.lookup other := by
  refine lookup_insertAll_absent gauges _ other fun listed => ?_
  obtain ⟨key, member, same⟩ := (mem_setLabels order counts other).mp listed
  exact unset key member same

end Lookup

section Truth

variable {classOf : α → K} {items : List α} {counts : Store K Nat} {label : K → L} {labelOf : α → L}
  {gauges : Gauges L}

theorem Counts.mem_iff (counted : Counts classOf items counts) (key : K) :
    key ∈ counts ↔ ∃ item ∈ items, classOf item = key := by
  rw [← AList.lookup_isSome, counted key]
  split_ifs with occurs
  · simpa using occurs
  · simpa using occurs

theorem Counts.lookup (counted : Counts classOf items counts) {item : α} (member : item ∈ items) :
    counts.lookup (classOf item) = some (items.countP fun other => classOf other = classOf item) := by
  rw [counted, if_pos (List.mem_map_of_mem member)]

/-- The series of a vector are those of some classes, and each was set to a count. -/
def SetOnly (label : K → L) (gauges : Gauges L) : Prop :=
  ∀ other value, gauges.lookup other = some value → 0 < value ∧ ∃ key, label key = other

theorem Counts.lookup_setAll (counted : Counts classOf items counts) (order : HashOrder K)
    (injective : Function.Injective label) {other : L} {value : Int}
    (found : (setAll order label gauges counts).lookup other = some value) :
    (∃ item ∈ items, label (classOf item) = other ∧ value = items.countP fun each => classOf each = classOf item) ∨
      gauges.lookup other = some value ∧ ∀ item ∈ items, label (classOf item) ≠ other := by
  by_cases listed : ∃ item ∈ items, label (classOf item) = other
  · obtain ⟨item, inside, rfl⟩ := listed
    rw [lookup_setAll_set order gauges counts injective (counted.lookup inside)] at found
    exact Or.inl ⟨item, inside, rfl, (Option.some.inj found).symm⟩
  · have unset : ∀ key ∈ counts, label key ≠ other := by
      intro key member same
      obtain ⟨item, inside, rfl⟩ := (counted.mem_iff key).mp member
      exact listed ⟨item, inside, same⟩
    rw [lookup_setAll_kept order gauges counts unset] at found
    exact Or.inr ⟨found, fun item inside same => listed ⟨item, inside, same⟩⟩

theorem SetOnly.setAll (set : SetOnly label gauges) (order : HashOrder K) (injective : Function.Injective label)
    (counted : Counts classOf items counts) : SetOnly label (setAll order label gauges counts) := by
  intro other value found
  cases counted.lookup_setAll order injective found with
  | inl occurs =>
      obtain ⟨item, inside, rfl, rfl⟩ := occurs
      have positive : 0 < items.countP fun other => classOf other = classOf item :=
        List.countP_pos_iff.mpr ⟨item, inside, by simp⟩
      exact ⟨Int.natCast_pos.mpr positive, _, rfl⟩
  | inr kept => exact set other value kept.1

theorem countP_eq_countP_iff {narrow wide : α → Bool} (within : ∀ item, narrow item = true → wide item = true) :
    items.countP wide = items.countP narrow ↔ ∀ item ∈ items, wide item = true → narrow item = true := by
  constructor
  · intro same item member holds
    have kept : (items.filter narrow).Sublist (items.filter wide) := List.monotone_filter_right items within
    have equal := kept.eq_of_length (by rw [← List.countP_eq_length_filter, ← List.countP_eq_length_filter, same])
    exact (List.mem_filter.mp (equal ▸ List.mem_filter.mpr ⟨member, holds⟩)).2
  · intro back
    exact List.countP_congr fun item member => ⟨back item member, within item⟩

theorem shows_setAll_iff (order : HashOrder K) (injective : Function.Injective label)
    (counted : Counts classOf items counts) (set : SetOnly label gauges)
    (refines : ∀ item key, labelOf item = label key → classOf item = key) :
    Shows labelOf items (setAll order label gauges counts) ↔
      (∀ item ∈ items, labelOf item = label (classOf item)) ∧
        ∀ other ∈ gauges, ∃ item ∈ items, label (classOf item) = other := by
  have same (key : K) : (items.countP fun item => classOf item = key) =
      (items.countP fun item => labelOf item = label key) ↔
        ∀ item ∈ items, classOf item = key → labelOf item = label key := by
    rw [countP_eq_countP_iff]
    · simp
    · intro item own
      simpa using refines item key (by simpa using own)
  constructor
  · intro shows
    constructor
    · intro item member
      have value := shows _ _ (lookup_setAll_set order gauges counts injective (counted.lookup member))
      exact (same (classOf item)).mp (by exact_mod_cast value) item member rfl
    · intro other live
      by_contra gone
      obtain ⟨value, found⟩ := Option.isSome_iff_exists.mp (AList.lookup_isSome.mpr live)
      obtain ⟨positive, key, rfl⟩ := set other value found
      have unset : ∀ other ∈ counts, label other ≠ label key := by
        intro other member equal
        obtain ⟨item, inside, rfl⟩ := (counted.mem_iff other).mp member
        exact gone ⟨item, inside, equal⟩
      have stale := shows _ value ((lookup_setAll_kept order gauges counts unset).trans found)
      have none : (items.countP fun item => labelOf item = label key) = 0 := by
        rw [List.countP_eq_zero]
        intro item inside own
        exact gone ⟨item, inside, by rw [refines item key (by simpa using own)]⟩
      omega
  · intro condition other value found
    obtain ⟨own, kept⟩ := condition
    cases counted.lookup_setAll order injective found with
    | inl occurs =>
        obtain ⟨item, inside, rfl, rfl⟩ := occurs
        rw [(same (classOf item)).mpr fun other member equal => equal ▸ own other member]
    | inr stale =>
        obtain ⟨item, inside, equal⟩ := kept other (lookup_eq_some_mem stale.1)
        exact absurd equal (stale.2 item inside)

end Truth

end GaugeVec
