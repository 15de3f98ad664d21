import ReputationFirewall.Shared.KeyedStore

set_option autoImplicit false

namespace CounterVec

open KeyedStore

variable {L : Type} [DecidableEq L] {w : Nat}

abbrev Counters (L : Type) (w : Nat) := Store L (BitVec w)

def withLabelValues (counters : Counters L w) (label : L) : Counters L w :=
  counters.insert label ((counters.lookup label).getD 0)

def incBy (counters : Counters L w) (label : L) (amount : BitVec w) : Counters L w :=
  counters.insert label ((counters.lookup label).getD 0 + amount)

def value (counters : Counters L w) (label : L) : BitVec w := (counters.lookup label).getD 0

@[simp] theorem value_incBy (counters : Counters L w) (label : L) (amount : BitVec w) :
    value (incBy counters label amount) label = value counters label + amount := by
  simp [value, incBy]

@[simp] theorem value_incBy_ne {label other : L} (differ : other ≠ label) (counters : Counters L w)
    (amount : BitVec w) : value (incBy counters label amount) other = value counters other := by
  simp [value, incBy, AList.lookup_insert_ne differ]

@[simp] theorem value_withLabelValues (counters : Counters L w) (label other : L) :
    value (withLabelValues counters label) other = value counters other := by
  by_cases same : other = label
  · subst same
    simp [value, withLabelValues]
  · simp [value, withLabelValues, AList.lookup_insert_ne same]

section Tallies

def tally (counters : Counters L w) (readings : List (L × BitVec w)) : Counters L w :=
  readings.foldl (fun counters reading => incBy counters reading.1 reading.2) counters

theorem tally_append (counters : Counters L w) (first second : List (L × BitVec w)) :
    tally counters (first ++ second) = tally (tally counters first) second := List.foldl_append

/-- What a list of readings adds up to under one label. -/
def amount (label : L) (readings : List (L × BitVec w)) : Nat :=
  ((readings.filter fun reading => reading.1 = label).map fun reading => reading.2.toNat).sum

theorem value_tally (counters : Counters L w) (readings : List (L × BitVec w)) (label : L) :
    value (tally counters readings) label = value counters label + BitVec.ofNat w (amount label readings) := by
  induction readings generalizing counters with
  | nil => simp [tally, amount]
  | cons reading rest ih =>
      have later := ih (incBy counters reading.1 reading.2)
      by_cases same : reading.1 = label
      · subst same
        have here : amount reading.1 (reading :: rest) = reading.2.toNat + amount reading.1 rest := by
          simp [amount]
        rw [here, BitVec.ofNat_add, BitVec.ofNat_toNat, BitVec.setWidth_eq, ← BitVec.add_assoc]
        rwa [value_incBy] at later
      · have elsewhere : amount label (reading :: rest) = amount label rest := by simp [amount, same]
        rw [elsewhere]
        rwa [value_incBy_ne (Ne.symm same)] at later

theorem amount_map {α : Type} (items : List α) (labelOf : α → L) (reading : α → BitVec w) (label : L) :
    amount label (items.map fun item => (labelOf item, reading item)) =
      ((items.filter fun item => labelOf item = label).map fun item => (reading item).toNat).sum := by
  simp [amount, List.filter_map, Function.comp_def]

theorem amount_ones {α : Type} (items : List α) (labelOf : α → L) (label : L) :
    amount label (items.map fun item => (labelOf item, (1 : BitVec (w + 1)))) =
      items.countP fun item => labelOf item = label := by
  have one : (1#(w + 1)).toNat = 1 := by simp
  simp only [amount_map, BitVec.ofNat_eq_ofNat, one, List.map_const', List.sum_replicate, smul_eq_mul, mul_one,
    List.countP_eq_length_filter]

end Tallies

theorem add_difference (last current : BitVec w) : last + (current - last) = current := by
  rw [BitVec.add_comm, BitVec.sub_add_cancel]

def higher (last current : BitVec w) : BitVec w := if last < current then current else last

theorem higher_eq_iff (last current : BitVec w) : higher last current = current ↔ last ≤ current := by
  unfold higher
  split_ifs with grows
  · exact iff_of_true rfl (BitVec.le_of_lt grows)
  · constructor
    · intro same
      exact same ▸ BitVec.le_refl _
    · intro below
      exact BitVec.le_antisymm below (BitVec.not_lt.mp grows)

structure Channel (L : Type) (w : Nat) where
  lastExported : Store L (BitVec w)
  series : Counters L w

namespace Channel

def last (channel : Channel L w) (label : L) : BitVec w := (channel.lastExported.lookup label).getD 0

/-- Export a reading. A reading below the last one changes nothing. -/
def push (channel : Channel L w) (label : L) (current : BitVec w) : Channel L w :=
  let lastExported := channel.lastExported.insert label (channel.last label)
  if channel.last label < current then
    ⟨lastExported.insert label current, incBy channel.series label (current - channel.last label)⟩
  else if channel.last label = 0 ∧ current = 0 then ⟨lastExported, withLabelValues channel.series label⟩
  else ⟨lastExported, channel.series⟩

def withdraw (channel : Channel L w) (label : L) : Channel L w :=
  ⟨channel.lastExported.erase label, channel.series.erase label⟩

/-- Each series stands at the last reading of its label. -/
def Mirrors (channel : Channel L w) : Prop :=
  ∀ label, channel.series.lookup label = channel.lastExported.lookup label

def pushAll (channel : Channel L w) (readings : List (L × BitVec w)) : Channel L w :=
  readings.foldl (fun channel reading => channel.push reading.1 reading.2) channel

def withdrawAll (channel : Channel L w) (labels : List L) : Channel L w := labels.foldl withdraw channel

section OneLabel

variable (channel : Channel L w) (label : L) (current : BitVec w)

theorem push_lookup_ne {other : L} (differ : other ≠ label) :
    (channel.push label current).lastExported.lookup other = channel.lastExported.lookup other := by
  unfold push
  dsimp only
  split_ifs <;> simp [AList.lookup_insert_ne differ]

theorem push_lookup :
    (channel.push label current).lastExported.lookup label = some (higher (channel.last label) current) := by
  unfold push higher
  dsimp only
  split_ifs <;> simp

variable {channel} in
theorem Mirrors.value (mirrors : channel.Mirrors) : value channel.series label = channel.last label := by
  rw [CounterVec.value, mirrors label, last]

variable {channel} in
theorem Mirrors.push (mirrors : channel.Mirrors) : (channel.push label current).Mirrors := by
  intro other
  by_cases same : other = label
  · subst same
    have stands := mirrors.value other
    rw [CounterVec.value] at stands
    unfold Channel.push
    dsimp only
    split_ifs with grows zero
    · rw [incBy, stands, add_difference, AList.lookup_insert, AList.lookup_insert]
    · rw [withLabelValues, stands, AList.lookup_insert, AList.lookup_insert]
    · -- The last reading is not zero, so it was recorded and its series exists.
      have kept : channel.last other ≠ 0 := by
        intro isZero
        rw [isZero] at grows
        exact zero ⟨isZero, by simpa using BitVec.not_lt.mp grows⟩
      rw [AList.lookup_insert, mirrors other]
      cases found : channel.lastExported.lookup other with
      | none => exact absurd (by simp [last, found]) kept
      | some reading => simp [last, found]
  · rw [push_lookup_ne _ _ _ same, ← mirrors other]
    unfold Channel.push
    dsimp only
    split_ifs <;> simp [incBy, withLabelValues, AList.lookup_insert_ne same]

theorem withdraw_lookup (other : L) :
    (channel.withdraw label).lastExported.lookup other =
      if other = label then none else channel.lastExported.lookup other := by
  split_ifs with same
  · subst same
    simp [withdraw]
  · simp [withdraw, AList.lookup_erase_ne same]

variable {channel} in
theorem Mirrors.withdraw (mirrors : channel.Mirrors) : (channel.withdraw label).Mirrors := by
  intro other
  by_cases same : other = label
  · subst same
    simp [Channel.withdraw]
  · simp [Channel.withdraw, AList.lookup_erase_ne same, mirrors other]

end OneLabel

section Passes

variable {channel : Channel L w}

theorem Mirrors.pushAll (mirrors : channel.Mirrors) (readings : List (L × BitVec w)) :
    (channel.pushAll readings).Mirrors := by
  induction readings generalizing channel with
  | nil => exact mirrors
  | cons reading rest ih => exact ih (mirrors.push reading.1 reading.2)

theorem Mirrors.withdrawAll (mirrors : channel.Mirrors) (labels : List L) : (channel.withdrawAll labels).Mirrors := by
  induction labels generalizing channel with
  | nil => exact mirrors
  | cons label rest ih => exact ih (mirrors.withdraw label)

theorem withdrawAll_lookup (channel : Channel L w) (labels : List L) (label : L) :
    (channel.withdrawAll labels).lastExported.lookup label =
      if label ∈ labels then none else channel.lastExported.lookup label := by
  induction labels generalizing channel with
  | nil => simp [withdrawAll]
  | cons head rest ih =>
      refine (ih (channel.withdraw head)).trans ?_
      rw [withdraw_lookup]
      by_cases first : label = head <;> simp [first]

theorem pushAll_lookup_unlisted (channel : Channel L w) {readings : List (L × BitVec w)} {label : L}
    (unlisted : label ∉ readings.map Prod.fst) :
    (channel.pushAll readings).lastExported.lookup label = channel.lastExported.lookup label := by
  induction readings generalizing channel with
  | nil => rfl
  | cons reading rest ih =>
      rw [List.map_cons, List.mem_cons, not_or] at unlisted
      exact (ih (channel.push reading.1 reading.2) unlisted.2).trans (push_lookup_ne _ _ _ unlisted.1)

theorem pushAll_lookup (channel : Channel L w) {readings : List (L × BitVec w)}
    (distinct : (readings.map Prod.fst).Nodup) {label : L} {current : BitVec w} (listed : (label, current) ∈ readings) :
    (channel.pushAll readings).lastExported.lookup label = some (higher (channel.last label) current) := by
  induction readings generalizing channel with
  | nil => simp at listed
  | cons reading rest ih =>
      rw [List.map_cons, List.nodup_cons] at distinct
      cases List.mem_cons.mp listed with
      | inl first =>
          subst first
          exact (pushAll_lookup_unlisted _ distinct.1).trans (push_lookup _ _ _)
      | inr later =>
          have differ : label ≠ reading.1 := fun same =>
            distinct.1 (same ▸ List.mem_map_of_mem later)
          refine (ih (channel.push reading.1 reading.2) distinct.2 later).trans ?_
          rw [last, push_lookup_ne _ _ _ differ, last]

theorem mem_pushAll (channel : Channel L w) (readings : List (L × BitVec w)) (label : L) :
    label ∈ (channel.pushAll readings).lastExported ↔
      label ∈ readings.map Prod.fst ∨ label ∈ channel.lastExported := by
  induction readings generalizing channel with
  | nil => simp [pushAll]
  | cons reading rest ih =>
      refine (ih (channel.push reading.1 reading.2)).trans ?_
      rw [List.map_cons, List.mem_cons, @or_comm (label = reading.1), or_assoc]
      refine or_congr_right ?_
      by_cases same : label = reading.1
      · subst same
        simp [← AList.lookup_isSome, push_lookup]
      · simp [← AList.lookup_isSome, push_lookup_ne _ _ _ same, same]

theorem foldl_pushAll {S A : Type} {step : S → A → S} (channelOf : S → Channel L w)
    (readings : A → List (L × BitVec w))
    (pushes : ∀ state action, channelOf (step state action) = (channelOf state).pushAll (readings action))
    (actions : List A) (state : S) :
    channelOf (actions.foldl step state) = (channelOf state).pushAll (actions.flatMap readings) := by
  induction actions generalizing state with
  | nil => rfl
  | cons action rest ih =>
      rw [List.foldl_cons, ih, pushes, List.flatMap_cons, pushAll, pushAll, pushAll, List.foldl_append]

theorem foldl_withdrawAll {S A : Type} {step : S → A → S} (channelOf : S → Channel L w) (labels : A → List L)
    (withdraws : ∀ state action, channelOf (step state action) = (channelOf state).withdrawAll (labels action))
    (actions : List A) (state : S) :
    channelOf (actions.foldl step state) = (channelOf state).withdrawAll (actions.flatMap labels) := by
  induction actions generalizing state with
  | nil => rfl
  | cons action rest ih =>
      rw [List.foldl_cons, ih, withdraws, List.flatMap_cons, withdrawAll, withdrawAll, withdrawAll, List.foldl_append]

end Passes

section Exposed

/-- The live series are those of the given labels, each at its last reading. -/
structure Exposes (channel : Channel L w) (labels : Finset L) : Prop where
  mirrors : channel.Mirrors
  recorded : keySet channel.lastExported = labels

variable {channel : Channel L w} {labels : Finset L}

theorem Exposes.series (exposes : channel.Exposes labels) : keySet channel.series = labels := by
  rw [← exposes.recorded]
  ext label
  rw [mem_keySet, mem_keySet, ← AList.lookup_isSome, ← AList.lookup_isSome, exposes.mirrors label]

theorem Exposes.refresh (exposes : channel.Exposes labels) {gone : List L} {readings : List (L × BitVec w)}
    (covered : ∀ label ∈ labels, label ∈ gone ∨ label ∈ readings.map Prod.fst) :
    ((channel.withdrawAll gone).pushAll readings).Exposes (readings.map Prod.fst).toFinset := by
  refine ⟨(exposes.mirrors.withdrawAll gone).pushAll readings, ?_⟩
  ext label
  rw [mem_keySet, mem_pushAll, List.mem_toFinset]
  refine or_iff_left_of_imp fun kept => ?_
  rw [← AList.lookup_isSome, withdrawAll_lookup] at kept
  split_ifs at kept with withdrawn
  · simp at kept
  · rw [AList.lookup_isSome, ← mem_keySet, exposes.recorded] at kept
    exact (covered label kept).resolve_left withdrawn

end Exposed

end Channel

end CounterVec
