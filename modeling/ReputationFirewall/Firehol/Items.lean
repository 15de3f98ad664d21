import ReputationFirewall.Firehol.Pipeline

set_option autoImplicit false

namespace ReputationFirewall.Firehol

open NetAddr Text

abbrev Item := Option (FireholIpTarget × BitVec 32)

def FireholEntry.item (entry : FireholEntry) : Item := some (entry.target, entry.line)

def entryItems (entries : List FireholEntry) : Multiset Item := entries.map FireholEntry.item

@[simp] theorem entryItems_nil : entryItems [] = 0 := rfl

@[simp] theorem entryItems_append (first second : List FireholEntry) :
    entryItems (first ++ second) = entryItems first + entryItems second := by
  simp [entryItems]

section Items

variable (context : ImportContext)

def lineItems (lineNumber : Nat) (line : List Char) : Multiset Item :=
  match lineTargets context line with
  | some targets => targets.map fun target => some (target, BitVec.ofNat 32 lineNumber)
  | none => {none}

def linesItems : Nat → List (List Char) → Multiset Item
  | _, [] => 0
  | lineNumber, line :: rest => lineItems context lineNumber line + linesItems (lineNumber + 1) rest

def readItems (bytes : Option Nat) : Multiset Item := if bytes.isSome then 0 else {none}

def fileItems (file : SourceFile) : Multiset Item :=
  linesItems context 1 (visitFileLines file.source).lines + readItems (visitFileLines file.source).bytes

end Items

section Contents

variable {context : ImportContext}

theorem visitLine_items {path : List UInt8} {state : FileState}
    {nextMetadataId : BitVec 32} {lineNumber : Nat} {line : List Char} {result : LineResult}
    (visited : visitLine context path state nextMetadataId lineNumber line = .ok result) :
    entryItems result.entries = lineItems context lineNumber line := by
  obtain ⟨targets, parsed, entries⟩ := visitLine_targets visited
  simp [entryItems, lineItems, parsed, entries, FireholEntry.item, Function.comp_def]

theorem lineItems_valid {lineNumber : Nat} {line : List Char}
    (valid : none ∉ lineItems context lineNumber line) :
    ∃ targets, lineTargets context line = some targets := by
  unfold lineItems at valid
  split at valid
  · next targets parsed => exact ⟨targets, parsed⟩
  · simp at valid

theorem lineItems_covers {lineNumber : Nat} {line : List Char}
    (valid : none ∉ lineItems context lineNumber line) (ip : IpAddr) :
    (∃ target number, some (target, number) ∈ lineItems context lineNumber line ∧ target.Covers ip) ↔
      LineCovers context.grammar line ip ∧ ip ∉ context.ignoreIps := by
  obtain ⟨targets, parsed⟩ := lineItems_valid valid
  rw [← lineTargets_covers parsed ip]
  simp [lineItems, parsed]

theorem linesItems_covers {lineNumber : Nat} {lines : List (List Char)}
    (valid : none ∉ linesItems context lineNumber lines) (ip : IpAddr) :
    (∃ target number, some (target, number) ∈ linesItems context lineNumber lines ∧ target.Covers ip) ↔
      (∃ line ∈ lines, LineCovers context.grammar line ip) ∧ ip ∉ context.ignoreIps := by
  induction lines generalizing lineNumber with
  | nil => simp [linesItems]
  | cons line rest ih =>
      simp only [linesItems, Multiset.mem_add, not_or] at valid
      have first := lineItems_covers valid.1 ip
      have others := ih valid.2
      simp only [linesItems, Multiset.mem_add, or_and_right, exists_or, first, others, List.mem_cons,
        exists_eq_left]

theorem linesItems_range {lineNumber : Nat} {lines : List (List Char)} {target : FireholIpTarget}
    {number : BitVec 32} (listed : some (target, number) ∈ linesItems context lineNumber lines) :
    target.PrefixInRange := by
  induction lines generalizing lineNumber with
  | nil => simp [linesItems] at listed
  | cons line rest ih =>
      rcases Multiset.mem_add.mp listed with own | later
      · unfold lineItems at own
        split at own
        · next targets parsed =>
          simp only [Multiset.mem_coe, List.mem_map, Option.some.injEq, Prod.mk.injEq] at own
          obtain ⟨other, member, rfl, _⟩ := own
          exact lineTargets_range parsed other member
        · simp at own
      · exact ih later

def FileCovers (grammar : IpnetGrammar) (content : List UInt8) (ip : IpAddr) : Prop :=
  ∃ text, decodeUtf8 content = some text ∧ ∃ line ∈ splitTerminator '\n' text, LineCovers grammar line ip

theorem fileItems_covers {file : SourceFile} (valid : none ∉ fileItems context file) (ip : IpAddr) :
    (∃ target number, some (target, number) ∈ fileItems context file ∧ target.Covers ip) ↔
      FileCovers context.grammar file.source.content ip ∧ ip ∉ context.ignoreIps := by
  simp only [fileItems, Multiset.mem_add, not_or] at valid
  obtain ⟨lines, read⟩ := valid
  cases bytes : (visitFileLines file.source).bytes with
  | none => simp [readItems, bytes] at read
  | some total =>
      obtain ⟨text, decoded, visited, _⟩ := visitFileLines_lines bytes
      have covers := linesItems_covers lines ip
      simpa [fileItems, FileCovers, readItems, bytes, decoded, visited] using covers

theorem fileItems_range {file : SourceFile} {target : FireholIpTarget} {number : BitVec 32}
    (listed : some (target, number) ∈ fileItems context file) : target.PrefixInRange := by
  rcases Multiset.mem_add.mp listed with lines | read
  · exact linesItems_range lines
  · unfold readItems at read
    split_ifs at read <;> simp at read

section Published

variable {files : List SourceFile} {entries : List FireholEntry}

theorem mem_entryItems (item : Item) : item ∈ entryItems entries ↔ ∃ entry ∈ entries, entry.item = item := by
  simp [entryItems]

theorem mem_fileItems_sum (item : Item) :
    item ∈ (files.map (fileItems context)).sum ↔ ∃ file ∈ files, item ∈ fileItems context file := by
  induction files with
  | nil => simp
  | cons file rest ih => simp [ih]

-- An invalid line or a failing read would be an item without an entry.
theorem published_valid (complete : entryItems entries = (files.map (fileItems context)).sum)
    {file : SourceFile} (member : file ∈ files) : none ∉ fileItems context file := by
  intro invalid
  have listed := (mem_fileItems_sum none).mpr ⟨file, member, invalid⟩
  rw [← complete, mem_entryItems] at listed
  simp [FireholEntry.item] at listed

theorem published_covers (complete : entryItems entries = (files.map (fileItems context)).sum)
    (ip : IpAddr) :
    (∃ entry ∈ entries, entry.target.Covers ip) ↔
      (∃ file ∈ files, FileCovers context.grammar file.source.content ip) ∧ ip ∉ context.ignoreIps := by
  have own : (∃ entry ∈ entries, entry.target.Covers ip) ↔
      ∃ target number, some (target, number) ∈ entryItems entries ∧ target.Covers ip := by
    constructor
    · rintro ⟨entry, member, covers⟩
      exact ⟨entry.target, entry.line, (mem_entryItems _).mpr ⟨entry, member, rfl⟩, covers⟩
    · rintro ⟨target, number, listed, covers⟩
      obtain ⟨entry, member, same⟩ := (mem_entryItems _).mp listed
      obtain rfl : entry.target = target := congrArg Prod.fst (Option.some.inj same)
      exact ⟨entry, member, covers⟩
  simp only [own, complete, mem_fileItems_sum]
  constructor
  · rintro ⟨target, number, ⟨file, member, listed⟩, covers⟩
    have file_covers := fileItems_covers (published_valid complete member) ip
    obtain ⟨inFile, kept⟩ := file_covers.mp ⟨target, number, listed, covers⟩
    exact ⟨⟨file, member, inFile⟩, kept⟩
  · rintro ⟨⟨file, member, inFile⟩, kept⟩
    have file_covers := fileItems_covers (published_valid complete member) ip
    obtain ⟨target, number, listed, covers⟩ := file_covers.mpr ⟨inFile, kept⟩
    exact ⟨target, number, ⟨file, member, listed⟩, covers⟩

theorem published_range (complete : entryItems entries = (files.map (fileItems context)).sum) :
    ∀ entry ∈ entries, entry.target.PrefixInRange := by
  intro entry member
  have listed : entry.item ∈ entryItems entries := (mem_entryItems _).mpr ⟨entry, member, rfl⟩
  rw [complete, mem_fileItems_sum] at listed
  obtain ⟨file, _, inside⟩ := listed
  exact fileItems_range inside

def SourceFile.Invalid (context : ImportContext) (file : SourceFile) : Prop :=
  (visitFileLines file.source).bytes = none ∨
    ∃ line ∈ (visitFileLines file.source).lines, ∃ token, classifyLine line = .target token ∧
      parseIpOrCidr context.grammar token = none

theorem lineItems_invalid {lineNumber : Nat} {line token : List Char}
    (target : classifyLine line = .target token) (refused : parseIpOrCidr context.grammar token = none) :
    none ∈ lineItems context lineNumber line := by
  have targets := tokenTargets_isSome context token
  rw [refused, Option.isSome_none, ← Bool.not_eq_true, Option.not_isSome_iff_eq_none] at targets
  simp [lineItems, lineTargets, target, targets]

theorem linesItems_mem {lineNumber : Nat} {lines : List (List Char)} {line : List Char}
    (member : line ∈ lines) : ∃ number, lineItems context number line ≤ linesItems context lineNumber lines := by
  induction lines generalizing lineNumber with
  | nil => simp at member
  | cons first rest ih =>
      rcases List.mem_cons.mp member with rfl | later
      · exact ⟨lineNumber, le_self_add⟩
      · obtain ⟨number, below⟩ := ih later
        exact ⟨number, below.trans le_add_self⟩

theorem fileItems_invalid {file : SourceFile} (invalid : file.Invalid context) :
    none ∈ fileItems context file := by
  rw [fileItems, Multiset.mem_add]
  rcases invalid with unread | ⟨line, member, token, target, refused⟩
  · exact Or.inr (by simp [readItems, unread])
  · obtain ⟨number, below⟩ := linesItems_mem member
    exact Or.inl (Multiset.mem_of_le below (lineItems_invalid target refused))

end Published

end Contents

end ReputationFirewall.Firehol
