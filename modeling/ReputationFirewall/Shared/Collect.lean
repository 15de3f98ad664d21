import ReputationFirewall.Shared.KeyedStore

set_option autoImplicit false

namespace Collect

open KeyedStore

section Appended

variable {α : Type} {items : List α} {item found : α} {index : Nat}

theorem getElem?_concat_iff :
    (items ++ [item])[index]? = some found ↔ items[index]? = some found ∨ index = items.length ∧ item = found := by
  rcases Nat.lt_trichotomy index items.length with earlier | rfl | past
  · rw [List.getElem?_append_left earlier]
    exact (or_iff_left fun last => earlier.ne last.1).symm
  · rw [List.getElem?_concat_length, List.getElem?_eq_none (Nat.le_refl _)]
    simp
  · rw [List.getElem?_eq_none (by simpa using past), List.getElem?_eq_none past.le]
    simp [past.ne']

end Appended

section Distinct

variable {α : Type} [DecidableEq α]

def pushNew (items : List α) (item : α) : List α := if item ∈ items then items else items ++ [item]

def pushAll (items added : List α) : List α := added.foldl pushNew items

@[simp] theorem pushAll_nil (items : List α) : pushAll items [] = items := rfl

@[simp] theorem pushAll_cons (items : List α) (item : α) (rest : List α) :
    pushAll items (item :: rest) = pushAll (pushNew items item) rest := rfl

theorem pushAll_append (items first second : List α) :
    pushAll items (first ++ second) = pushAll (pushAll items first) second :=
  List.foldl_append

theorem mem_pushNew {items : List α} {item other : α} :
    other ∈ pushNew items item ↔ other ∈ items ∨ other = item := by
  unfold pushNew
  split_ifs with present
  · constructor
    · exact Or.inl
    · rintro (member | rfl)
      · exact member
      · exact present
  · simp

theorem pushNew_nodup {items : List α} (distinct : items.Nodup) (item : α) :
    (pushNew items item).Nodup := by
  unfold pushNew
  split_ifs with present
  · exact distinct
  · rw [List.nodup_append]
    refine ⟨distinct, List.nodup_singleton item, ?_⟩
    intro other member new same
    obtain rfl := List.mem_singleton.mp same
    rintro rfl
    exact present member

theorem mem_pushAll {items added : List α} {other : α} :
    other ∈ pushAll items added ↔ other ∈ items ∨ other ∈ added := by
  induction added generalizing items with
  | nil => simp
  | cons item rest ih => simp [ih, mem_pushNew, or_assoc]

theorem pushAll_nodup {items : List α} (distinct : items.Nodup) (added : List α) :
    (pushAll items added).Nodup := by
  induction added generalizing items with
  | nil => exact distinct
  | cons item rest ih => exact ih (pushNew_nodup distinct item)

end Distinct

section Groups

variable {K V α : Type} [DecidableEq K] (initial : V) (add : V → α → V) (keyOf : α → K)

/-- Elements are added to the value of their key, which starts as `initial`. -/
def accumulate (store : Store K V) (items : List α) : Store K V :=
  items.foldl (fun store item =>
    store.insert (keyOf item) (add ((store.lookup (keyOf item)).getD initial) item)) store

theorem filter_eq_nil_of_absent {keyOf : α → K} {items : List α} {key : K} (absent : key ∉ items.map keyOf) :
    items.filter (fun item => keyOf item = key) = [] := by
  rw [List.filter_eq_nil_iff]
  intro item member
  simpa using fun same => absent (List.mem_map.mpr ⟨item, member, same⟩)

def accumulateFrom (start : K → V) (store : Store K V) (items : List α) : Store K V :=
  items.foldl (fun store item =>
    store.insert (keyOf item) (add ((store.lookup (keyOf item)).getD (start (keyOf item))) item)) store

theorem lookup_accumulateFrom (start : K → V) (store : Store K V) (items : List α) (key : K) :
    (accumulateFrom add keyOf start store items).lookup key =
      if key ∈ items.map keyOf then
        some ((items.filter fun item => keyOf item = key).foldl add ((store.lookup key).getD (start key)))
      else store.lookup key := by
  induction items generalizing store with
  | nil => simp [accumulateFrom]
  | cons item rest ih =>
      change (accumulateFrom add keyOf start _ rest).lookup key = _
      rw [ih]
      by_cases same : keyOf item = key
      · subst same
        by_cases later : keyOf item ∈ rest.map keyOf
        · simp [later]
        · simp [later, filter_eq_nil_of_absent later]
      · have different : key ≠ keyOf item := fun equal => same equal.symm
        have members : key ∈ (item :: rest).map keyOf ↔ key ∈ rest.map keyOf := by
          rw [List.map_cons, List.mem_cons, or_iff_right different]
        rw [AList.lookup_insert_ne different, List.filter_cons_of_neg (by simpa using same)]
        simp only [members]

theorem lookup_accumulate (store : Store K V) (items : List α) (key : K) :
    (accumulate initial add keyOf store items).lookup key =
      if key ∈ items.map keyOf then
        some ((items.filter fun item => keyOf item = key).foldl add ((store.lookup key).getD initial))
      else store.lookup key :=
  lookup_accumulateFrom add keyOf (fun _ => initial) store items key

end Groups

section Counters

variable {K : Type} [DecidableEq K]

def bump (counts : Store K Nat) (key : K) (amount : Nat) : Store K Nat :=
  counts.insert key ((counts.lookup key).getD 0 + amount)

def bumpAll (counts : Store K Nat) (amounts : List (K × Nat)) : Store K Nat :=
  amounts.foldl (fun counts entry => bump counts entry.1 entry.2) counts

def amountOf (key : K) (amounts : List (K × Nat)) : Nat :=
  (amounts.map fun entry => if entry.1 = key then entry.2 else 0).sum

theorem amountOf_eq_fold (key : K) (amounts : List (K × Nat)) (start : Nat) :
    (amounts.filter fun entry => entry.1 = key).foldl (fun total entry => total + entry.2) start =
      start + amountOf key amounts := by
  induction amounts generalizing start with
  | nil => rfl
  | cons entry rest ih =>
      by_cases same : entry.1 = key
      · rw [List.filter_cons_of_pos (by simpa using same), List.foldl_cons, ih]
        simp [amountOf, same, Nat.add_assoc]
      · rw [List.filter_cons_of_neg (by simpa using same), ih]
        simp [amountOf, same]

theorem lookup_bumpAll (counts : Store K Nat) (amounts : List (K × Nat)) (key : K) :
    (bumpAll counts amounts).lookup key =
      if key ∈ amounts.map Prod.fst then some ((counts.lookup key).getD 0 + amountOf key amounts)
      else counts.lookup key := by
  rw [← amountOf_eq_fold]
  exact lookup_accumulate 0 (fun total entry => total + entry.2) Prod.fst counts amounts key

/-- The numbers that occur in a list, each with its class and the number of its occurrences. -/
def grouped (classOf : Nat → K) (size : Nat) (items : List Nat) : List (K × Nat) :=
  (List.range size).filterMap fun number =>
    if 0 < items.count number then some (classOf number, items.count number) else none

omit [DecidableEq K] in
theorem grouped_keys (classOf : Nat → K) {size : Nat} {items : List Nat}
    (inside : ∀ item ∈ items, item < size) (key : K) :
    key ∈ (grouped classOf size items).map Prod.fst ↔ ∃ item ∈ items, classOf item = key := by
  simp only [grouped, List.mem_map, List.mem_filterMap, List.mem_range, Option.ite_none_right_eq_some,
    Option.some.injEq]
  constructor
  · rintro ⟨_, ⟨number, _, occurs, rfl⟩, rfl⟩
    exact ⟨number, List.count_pos_iff.mp occurs, rfl⟩
  · rintro ⟨item, member, rfl⟩
    exact ⟨_, ⟨item, inside item member, List.count_pos_iff.mpr member, rfl⟩, rfl⟩

theorem amountOf_grouped (classOf : Nat → K) {size : Nat} {items : List Nat}
    (inside : ∀ item ∈ items, item < size) (key : K) :
    amountOf key (grouped classOf size items) = items.countP fun item => classOf item = key := by
  have flat : amountOf key (grouped classOf size items) =
      ∑ number ∈ Finset.range size, if classOf number = key then items.count number else 0 := by
    simp only [amountOf, grouped, Finset.sum, Finset.range, Multiset.range, Multiset.map_coe, Multiset.sum_coe]
    induction List.range size with
    | nil => rfl
    | cons number rest ih =>
        rw [List.filterMap_cons, List.map_cons, List.sum_cons, ← ih]
        by_cases occurs : 0 < items.count number
        · simp only [if_pos occurs, List.map_cons, List.sum_cons]
        · have never : items.count number = 0 := Nat.eq_zero_of_not_pos occurs
          simp [never]
  rw [flat]
  clear flat
  induction items with
  | nil => simp
  | cons item rest ih =>
      have own : ∑ number ∈ Finset.range size,
          (if classOf number = key then (if item = number then 1 else 0) else 0) =
            if decide (classOf item = key) = true then 1 else 0 := by
        rw [Finset.sum_eq_single item]
        · simp
        · intro other _ different
          simp [Ne.symm different]
        · intro outside
          exact absurd (Finset.mem_range.mpr (inside item List.mem_cons_self)) outside
      rw [List.countP_cons, ← ih fun other member => inside other (List.mem_cons_of_mem _ member), ← own,
        ← Finset.sum_add_distrib]
      apply Finset.sum_congr rfl
      intro number _
      split_ifs with same <;> simp [*]

theorem amountOf_ones {α : Type} (classOf : α → K) (items : List α) (key : K) :
    amountOf key (items.map fun item => (classOf item, 1)) = items.countP fun item => classOf item = key := by
  induction items with
  | nil => rfl
  | cons item rest ih =>
      rw [List.countP_cons, ← ih, Nat.add_comm]
      simp [amountOf]

theorem lookup_bumpAll_grouped (classOf : Nat → K) {size : Nat} {items : List Nat}
    (inside : ∀ item ∈ items, item < size) (counts : Store K Nat) (key : K) :
    (bumpAll counts (grouped classOf size items)).lookup key =
      (bumpAll counts (items.map fun item => (classOf item, 1))).lookup key := by
  have keys : key ∈ (items.map fun item => (classOf item, 1)).map Prod.fst ↔
      ∃ item ∈ items, classOf item = key := by
    simp
  simp only [lookup_bumpAll, grouped_keys classOf inside, keys, amountOf_grouped classOf inside, amountOf_ones]

end Counters

section Slots

variable {α : Type}

/-- `resize` fills new slots with the placeholder; then one slot is set. -/
def putAt (placeholder : α) (slots : List α) (index : Nat) (value : α) : List α :=
  (slots ++ List.replicate (index + 1 - slots.length) placeholder).set index value

theorem putAt_same (placeholder : α) (slots : List α) (index : Nat) (value : α) :
    (putAt placeholder slots index value)[index]? = some value := by
  rw [putAt, List.getElem?_set_self]
  simp only [List.length_append, List.length_replicate]
  omega

theorem putAt_other (placeholder : α) (slots : List α) {index other : Nat} (different : index ≠ other) (value : α) :
    (putAt placeholder slots index value)[other]? =
      if other < slots.length then slots[other]? else if other < index then some placeholder else none := by
  rw [putAt, List.getElem?_set_ne different, List.getElem?_append]
  split_ifs with inside before
  · rfl
  · rw [List.getElem?_replicate, if_pos (by omega)]
  · rw [List.getElem?_replicate, if_neg (by omega)]

section PutAll

variable {β : Type} (placeholder : α) (index : β → Nat) (value : β → α)

def putAll (slots : List α) (items : List β) : List α :=
  items.foldl (fun slots item => putAt placeholder slots (index item) (value item)) slots

variable {placeholder index value} {slots : List α} {items : List β}

theorem putAll_kept {other : Nat} (absent : other ∉ items.map index) {kept : α} (held : slots[other]? = some kept) :
    (putAll placeholder index value slots items)[other]? = some kept := by
  induction items generalizing slots with
  | nil => exact held
  | cons item rest ih =>
      simp only [List.map_cons, List.mem_cons, not_or] at absent
      apply ih absent.2
      obtain ⟨inside, _⟩ := List.getElem?_eq_some_iff.mp held
      rw [putAt_other _ _ (Ne.symm absent.1), if_pos inside, held]

theorem putAll_slot (distinct : (items.map index).Nodup) {item : β} (member : item ∈ items) :
    (putAll placeholder index value slots items)[index item]? = some (value item) := by
  induction items generalizing slots with
  | nil => cases member
  | cons first rest ih =>
      rw [List.map_cons, List.nodup_cons] at distinct
      cases member with
      | head => exact putAll_kept distinct.1 (putAt_same placeholder slots (index item) (value item))
      | tail _ later => exact ih distinct.2 later

theorem putAll_unused {other : Nat} (absent : other ∉ items.map index)
    (unused : ∀ kept ∈ slots[other]?, kept = placeholder) :
    ∀ kept ∈ (putAll placeholder index value slots items)[other]?, kept = placeholder := by
  induction items generalizing slots with
  | nil => exact unused
  | cons item rest ih =>
      simp only [List.map_cons, List.mem_cons, not_or] at absent
      apply ih absent.2
      rw [putAt_other _ _ (Ne.symm absent.1)]
      split_ifs
      · exact unused
      · simp
      · simp

end PutAll

theorem modifyAll_slot {change : α → α} (again : ∀ value, change (change value) = change value)
    (indexes : List Nat) (slots : List α) (other : Nat) :
    (indexes.foldl (fun slots index => slots.modify index change) slots)[other]? =
      if other ∈ indexes then (slots[other]?).map change else slots[other]? := by
  induction indexes generalizing slots with
  | nil => simp
  | cons index rest ih =>
      rw [List.foldl_cons, ih, List.getElem?_modify]
      by_cases same : index = other
      · cases slots[other]? <;> simp [same, again]
      · simp [same, Ne.symm same]

theorem tally_eq_count (size : Nat) (items : List Nat) :
    items.foldl (fun counts item => counts.modify item (· + 1)) (List.replicate size 0) =
      (List.range size).map fun index => items.count index := by
  have slots (counts : List Nat) (index : Nat) :
      (items.foldl (fun counts item => counts.modify item (· + 1)) counts)[index]? =
        (counts[index]?).map (· + items.count index) := by
    induction items generalizing counts with
    | nil => simp
    | cons item rest ih =>
        rw [List.foldl_cons, ih, List.getElem?_modify]
        by_cases same : item = index
        · cases counts[index]? <;> simp [same, Nat.add_assoc, Nat.add_comm 1]
        · cases counts[index]? <;> simp [same]
  apply List.ext_getElem?
  intro index
  rw [slots]
  by_cases inside : index < size
  · simp [inside]
  · simp [Nat.le_of_not_lt inside]

end Slots

section Chunks

variable {α κ : Type} [DecidableEq κ] (key : α → κ)

/-- The maximal runs of neighbours with the same key. -/
def chunkBy : List α → List (κ × List α)
  | [] => []
  | item :: rest =>
      match chunkBy rest with
      | [] => [(key item, [item])]
      | (other, chunk) :: chunks =>
          if key item = other then (other, item :: chunk) :: chunks
          else (key item, [item]) :: (other, chunk) :: chunks

/-- What lies between two elements of one key has that key too. -/
def Contiguous (items : List α) : Prop :=
  ∀ first middle last, [first, middle, last].Sublist items → key first = key last → key middle = key first

variable {key}

omit [DecidableEq κ] in
theorem Contiguous.tail {item : α} {rest : List α} (contiguous : Contiguous key (item :: rest)) :
    Contiguous key rest :=
  fun first middle last sub => contiguous first middle last (sub.cons item)

theorem chunkBy_cons (item : α) (rest : List α) :
    chunkBy key (item :: rest) = match chunkBy key rest with
      | [] => [(key item, [item])]
      | (other, chunk) :: chunks =>
          if key item = other then (other, item :: chunk) :: chunks
          else (key item, [item]) :: (other, chunk) :: chunks := rfl

theorem chunkBy_head (item : α) (rest : List α) :
    ∃ chunk chunks, chunkBy key (item :: rest) = (key item, item :: chunk) :: chunks := by
  rw [chunkBy_cons]
  split
  · exact ⟨[], [], rfl⟩
  · next other chunk chunks _ =>
    split_ifs with same
    · exact ⟨chunk, chunks, by rw [same]⟩
    · exact ⟨[], _, rfl⟩

theorem chunkBy_append {wanted : κ} {run : List α} (some : run ≠ []) (same : ∀ item ∈ run, key item = wanted)
    {rest : List α} (ends : ∀ item ∈ rest.head?, key item ≠ wanted) :
    chunkBy key (run ++ rest) = (wanted, run) :: chunkBy key rest := by
  induction run with
  | nil => exact absurd rfl some
  | cons item others ih =>
      have own := same item List.mem_cons_self
      rw [List.cons_append, chunkBy_cons]
      cases others with
      | nil =>
          cases rest with
          | nil => simp [chunkBy, own]
          | cons next later =>
              obtain ⟨chunk, chunks, found⟩ := @chunkBy_head α κ _ key next later
              have different : key next ≠ wanted := ends next rfl
              rw [List.nil_append, found]
              simp only [own, if_neg different.symm]
      | cons other more =>
          rw [ih (by simp) fun member inside => same member (List.mem_cons_of_mem _ inside)]
          simp only [own, if_true]

theorem chunkBy_keys (items : List α) (wanted : κ) :
    wanted ∈ (chunkBy key items).map Prod.fst ↔ wanted ∈ items.map key := by
  induction items with
  | nil => simp [chunkBy]
  | cons item rest ih =>
      rw [List.map_cons, List.mem_cons, ← ih, chunkBy_cons]
      split
      · next none => simp [none]
      · next other chunk chunks found =>
        rw [found]
        split_ifs with same <;> simp [same]

omit [DecidableEq κ] in
theorem Contiguous.absent {item next : α} {rest : List α} (contiguous : Contiguous key (item :: next :: rest))
    (different : key item ≠ key next) : key item ∉ (next :: rest).map key := by
  intro member
  rw [List.map_cons, List.mem_cons] at member
  rcases member with same | later
  · exact different same
  · obtain ⟨last, inside, same⟩ := List.mem_map.mp later
    have sub : [item, next, last].Sublist (item :: next :: rest) :=
      ((List.singleton_sublist.mpr inside).cons_cons next).cons_cons item
    exact different (contiguous item next last sub same.symm).symm

theorem chunkBy_contiguous {items : List α} (contiguous : Contiguous key items) :
    ((chunkBy key items).map Prod.fst).Nodup ∧
      ∀ entry ∈ chunkBy key items, entry.2 = items.filter (fun item => key item = entry.1) := by
  induction items with
  | nil => simp [chunkBy]
  | cons item rest ih =>
      obtain ⟨distinct, chunks⟩ := ih contiguous.tail
      cases rest with
      | nil => simp [chunkBy]
      | cons next others =>
          obtain ⟨chunk, later, found⟩ := @chunkBy_head α κ _ key next others
          rw [found] at distinct chunks
          rw [chunkBy_cons, found]
          dsimp only
          simp only [List.map_cons, List.nodup_cons] at distinct
          by_cases same : key item = key next
          · rw [if_pos same]
            refine ⟨by simpa using distinct, ?_⟩
            intro entry member
            rcases List.mem_cons.mp member with rfl | other
            · have own := chunks _ List.mem_cons_self
              simpa [same] using own
            · have own := chunks entry (List.mem_cons_of_mem _ other)
              have unlike : entry.1 ≠ key item := by
                rintro equal
                exact distinct.1 (List.mem_map.mpr ⟨entry, other, equal.trans same⟩)
              exact own.trans (List.filter_cons_of_neg (by simpa using unlike.symm)).symm
          · rw [if_neg same]
            have absent := contiguous.absent same
            have keys : key item ∉ (chunkBy key (next :: others)).map Prod.fst :=
              fun member => absent ((chunkBy_keys _ _).mp member)
            rw [found] at keys
            refine ⟨by simpa using And.intro (by simpa using keys) distinct, ?_⟩
            intro entry member
            rcases List.mem_cons.mp member with rfl | other
            · rw [List.filter_cons, if_pos (by simp), filter_eq_nil_of_absent absent]
            · have own := chunks entry other
              have unlike : entry.1 ≠ key item := by
                rintro equal
                exact keys (List.mem_map.mpr ⟨entry, other, equal⟩)
              exact own.trans (List.filter_cons_of_neg (by simpa using unlike.symm)).symm

end Chunks

end Collect
