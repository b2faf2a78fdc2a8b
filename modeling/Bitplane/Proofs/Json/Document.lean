import Bitplane.Proofs.Json.Number
import Bitplane.Proofs.Json.Text

/-! # Documents read back

A document on one line is read as the document, unless it holds a double or a whole number
that 64 bits do not hold.
-/

namespace Bitplane.Document

/-- Documents whose spelling says all: every number in them is whole and has 64 bits. -/
inductive IsExact : Document → Prop
  | null : IsExact .null
  | bool (value : Bool) : IsExact (.bool value)
  | int {value : Int} (hlow : -0x8000000000000000 ≤ value) (hhigh : value < 0x10000000000000000) :
    IsExact (.int value)
  | text (value : String) : IsExact (.text value)
  | list {items : List Document} (hitems : ∀ d ∈ items, IsExact d) : IsExact (.list items)
  | table {members : List (String × Document)} (hmembers : ∀ m ∈ members, IsExact m.2) :
    IsExact (.table members)

theorem IsExact.nil : IsExact (.table []) := .table fun _ hm => absurd hm List.not_mem_nil

theorem IsExact.cons {name : String} {d : Document} {members : List (String × Document)}
    (hd : d.IsExact) (h : IsExact (.table members)) : IsExact (.table ((name, d) :: members)) := by
  cases h with
  | table hmembers => exact .table (List.forall_mem_cons.mpr ⟨hd, hmembers⟩)

namespace Json

open Text

variable {d : Document} {items : List Document} {members : List (String × Document)}
  {c : Char} {cs rest : List Char} {fuel : Nat}

def spelling (d : Document) : List Char := octetsOf (compactChars d)

/-- With fuel for every octet a document is read off the front of any octets that go on
with no number. -/
def ReadsBack (d : Document) : Prop :=
  ∀ (fuel : Nat) (rest : List Char), (spelling d).length ≤ fuel → EndsNumber rest →
    value? fuel (spelling d ++ rest) = some (d, rest)

/-- Whether a character can begin a document: it is neither a blank nor a closing mark. -/
def opens (c : Char) : Bool := !isBlank c && c != ']' && c != '\x7d'

theorem skipBlanks_cons (hc : isBlank c = false) : skipBlanks (c :: cs) = c :: cs := by
  rw [skipBlanks, List.dropWhile_cons, if_neg (by simp [hc])]

theorem isBlank_of_opens (hc : opens c = true) : isBlank c = false := by
  simp only [opens, Bool.and_eq_true, Bool.not_eq_true'] at hc
  exact hc.1.1

theorem endsNumber_comma : EndsNumber (',' :: rest) := by simp [EndsNumber, isDigit]

theorem endsNumber_bracket : EndsNumber (']' :: rest) := by simp [EndsNumber, isDigit]

theorem endsNumber_brace : EndsNumber ('\x7d' :: rest) := by simp [EndsNumber, isDigit]

section Numbers

variable {value : Int}

theorem toNat_of_isDigit (h : isDigit c = true) : 0x30 ≤ c.toNat ∧ c.toNat ≤ 0x39 := by
  simpa [isDigit, Char.le_def, UInt32.le_iff_toNat_le] using h

theorem opens_of_startsNumber (hc : c = '-' ∨ isDigit c = true) : opens c = true := by
  rcases hc with rfl | hc
  · rfl
  · obtain ⟨hlow, hhigh⟩ := toNat_of_isDigit hc
    simp only [opens, isBlank, Bool.and_eq_true, Bool.not_eq_true', Bool.or_eq_false_iff,
      beq_eq_false_iff_ne, bne_iff_ne]
    refine ⟨⟨⟨⟨⟨?_, ?_⟩, ?_⟩, ?_⟩, ?_⟩, ?_⟩ <;> rintro rfl <;> contradiction

theorem spelling_int (value : Int) : spelling (.int value) = intChars value := by
  refine octetsOf_of_lt fun c hc => ?_
  have hdigit {n : Nat} (h : c ∈ Nat.toDigits 10 n) : c.toNat < 0x80 := by
    have := toNat_of_isDigit (isDigit_of_mem_toDigits h)
    omega
  cases value with
  | ofNat n => exact hdigit hc
  | negSucc n =>
    rcases List.mem_cons.mp hc with rfl | hc
    · decide
    · exact hdigit hc

theorem exists_intChars (value : Int) :
    ∃ c cs, intChars value = c :: cs ∧ (c = '-' ∨ isDigit c = true) := by
  cases value with
  | ofNat n =>
    obtain ⟨c, cs, hcs, hc⟩ := exists_toDigits n
    exact ⟨c, cs, hcs, .inr hc⟩
  | negSucc n => exact ⟨'-', _, rfl, .inl rfl⟩

theorem value?_eq_number? (hc : c = '-' ∨ isDigit c = true) :
    value? (fuel + 1) (c :: cs) = number? (c :: cs) := by
  rw [value?, skipBlanks_cons (isBlank_of_opens (opens_of_startsNumber hc))]
  split
  case h_7 => rfl
  all_goals
    rename_i heq
    obtain ⟨rfl, -⟩ := List.cons.inj heq
    simp [isDigit] at hc

theorem readsBack_int (hlow : -0x8000000000000000 ≤ value) (hhigh : value < 0x10000000000000000) :
    ReadsBack (.int value) := by
  intro fuel rest hfuel hrest
  obtain ⟨c, cs, hcs, hc⟩ := exists_intChars value
  rw [spelling_int] at hfuel ⊢
  match fuel with
  | 0 => simp [hcs] at hfuel
  | fuel + 1 =>
    rw [hcs, List.cons_append, value?_eq_number? hc, ← List.cons_append, ← hcs,
      number?_intChars hlow hhigh hrest]

end Numbers

theorem exists_opens (h : d.IsExact) : ∃ c cs, spelling d = c :: cs ∧ opens c = true := by
  cases h with
  | null => exact ⟨'n', _, rfl, rfl⟩
  | bool value => cases value <;> exact ⟨_, _, rfl, rfl⟩
  | @int value _ _ =>
    obtain ⟨c, cs, hcs, hc⟩ := exists_intChars value
    exact ⟨c, cs, (spelling_int value).trans hcs, opens_of_startsNumber hc⟩
  | text value => exact ⟨'"', _, rfl, rfl⟩
  | list _ => exact ⟨'[', _, rfl, rfl⟩
  | table _ => exact ⟨'\x7b', _, rfl, rfl⟩

theorem readsBack_null : ReadsBack .null
  | 0, _, hfuel, _ => absurd hfuel (by decide)
  | _ + 1, _, _, _ => rfl

theorem readsBack_bool (value : Bool) : ReadsBack (.bool value)
  | 0, _, hfuel, _ => by cases value <;> exact absurd hfuel (by decide)
  | _ + 1, _, _, _ => by cases value <;> rfl

theorem readsBack_text (value : String) : ReadsBack (.text value)
  | 0, _, hfuel, _ => absurd hfuel (Nat.not_succ_le_zero _)
  | fuel + 1, rest, _, _ => by
    obtain ⟨parts, hparts, hread⟩ := exists_textParts_textChars value rest
    have hspelled : spelling (.text value) = octetsOf (textChars value) := rfl
    rw [hspelled, octetsOf_textChars, value?, skipBlanks_cons rfl]
    simp only [hread, Json.ofParts, hparts]

section Lists

theorem value?_bracket (hc : opens c = true) :
    value? (fuel + 1) ('[' :: c :: cs) = items? fuel [] (c :: cs) := by
  rw [value?, skipBlanks_cons rfl]
  simp only [skipBlanks_cons (isBlank_of_opens hc)]
  split
  case h_1 heq =>
    obtain ⟨rfl, -⟩ := List.cons.inj heq
    contradiction
  case h_2 => rfl

theorem items?_of_comma {found : List Document} (h : value? fuel cs = some (d, ',' :: rest)) :
    items? (fuel + 1) found cs = items? fuel (d :: found) rest := by
  simp only [items?, h, skipBlanks_cons (c := ',') rfl]

theorem items?_of_bracket {found : List Document} (h : value? fuel cs = some (d, ']' :: rest)) :
    items? (fuel + 1) found cs = some (.list (d :: found).reverse, rest) := by
  simp only [items?, h, skipBlanks_cons (c := ']') rfl]

theorem octetsOf_compactItems_cons (d e : Document) (more : List Document) :
    octetsOf (compactItems (d :: e :: more)) =
      spelling d ++ ',' :: octetsOf (compactItems (e :: more)) := by
  simp [compactItems, spelling, octetsOf_cons]

theorem compactItems_eq_intercalate (items : List Document) :
    compactItems items = [','].intercalate (items.map compactChars) := by
  induction items with
  | nil => rfl
  | cons d rest ih =>
    cases rest with
    | nil => simp [compactItems, List.intercalate]
    | cons e more =>
      rw [compactItems, ih]
      · simp [List.intercalate]
      · simp

theorem items?_compactItems (hitems : ∀ d ∈ items, ReadsBack d) (hne : items ≠ [])
    (found : List Document) (hfuel : (octetsOf (compactItems items)).length < fuel) :
    items? fuel found (octetsOf (compactItems items) ++ ']' :: rest) =
      some (.list (found.reverse ++ items), rest) := by
  induction items generalizing found fuel with
  | nil => contradiction
  | cons d more ih =>
    obtain ⟨fuel, rfl⟩ : ∃ n, fuel = n + 1 := ⟨fuel - 1, by omega⟩
    have hd : ReadsBack d := hitems d List.mem_cons_self
    cases more with
    | nil =>
      have hspelled : octetsOf (compactItems [d]) = spelling d := rfl
      rw [hspelled] at hfuel ⊢
      rw [items?_of_bracket (hd fuel _ (Nat.le_of_lt_succ hfuel) endsNumber_bracket)]
      simp
    | cons e more =>
      -- The item has its own octets for fuel, and the comma's pays for this step.
      rw [octetsOf_compactItems_cons, List.length_append, List.length_cons] at hfuel
      rw [octetsOf_compactItems_cons, List.append_assoc, List.cons_append,
        items?_of_comma (hd fuel _ (by omega) endsNumber_comma),
        ih (fun x hx => hitems x (List.mem_cons_of_mem d hx)) (by simp) _ (by omega)]
      simp

theorem spelling_list (items : List Document) :
    spelling (.list items) = '[' :: (octetsOf (compactItems items) ++ [']']) := by
  simp [spelling, compactChars, octetsOf_cons]

theorem exists_opens_compactItems (h : ∀ d ∈ items, d.IsExact) (hne : items ≠ []) :
    ∃ c cs, octetsOf (compactItems items) = c :: cs ∧ opens c = true := by
  match items with
  | [d] => exact exists_opens (h d List.mem_cons_self)
  | d :: e :: more =>
    obtain ⟨c, cs, hcs, hc⟩ := exists_opens (h d List.mem_cons_self)
    refine ⟨c, cs ++ ',' :: octetsOf (compactItems (e :: more)), ?_, hc⟩
    rw [octetsOf_compactItems_cons, hcs, List.cons_append]

theorem readsBack_list (h : ∀ d ∈ items, d.IsExact) (hitems : ∀ d ∈ items, ReadsBack d) :
    ReadsBack (.list items) := by
  intro fuel rest hfuel _
  rw [spelling_list] at hfuel ⊢
  rw [List.length_cons, List.length_append, List.length_singleton] at hfuel
  obtain ⟨fuel, rfl⟩ : ∃ n, fuel = n + 1 := ⟨fuel - 1, by omega⟩
  rw [List.cons_append, List.append_assoc, List.singleton_append]
  by_cases hne : items = []
  · subst hne
    rfl
  · obtain ⟨c, cs, hcs, hc⟩ := exists_opens_compactItems h hne
    rw [hcs, List.cons_append, value?_bracket hc, ← List.cons_append, ← hcs,
      items?_compactItems hitems hne [] (by omega)]
    rfl

end Lists

section Tables

variable {m : String × Document} {found : List (String × Document)}

theorem value?_brace (hc : opens c = true) :
    value? (fuel + 1) ('\x7b' :: c :: cs) = members? fuel (some []) (c :: cs) := by
  rw [value?, skipBlanks_cons rfl]
  simp only [skipBlanks_cons (isBlank_of_opens hc)]
  split
  case h_1 heq =>
    obtain ⟨rfl, -⟩ := List.cons.inj heq
    contradiction
  case h_2 => rfl

def memberSpelling (m : String × Document) : List Char :=
  octetsOf (textChars m.1) ++ ':' :: spelling m.2

theorem members?_memberSpelling (h : value? fuel (spelling m.2 ++ rest) = some (m.2, rest)) :
    members? (fuel + 1) (some found) (memberSpelling m ++ rest) =
      match skipBlanks rest with
      | ',' :: rest => members? fuel (some (m :: found)) rest
      | '\x7d' :: rest => some (.table (m :: found).reverse, rest)
      | _ => none := by
  obtain ⟨parts, hparts, hread⟩ :=
    exists_textParts_textChars m.1 (':' :: (spelling m.2 ++ rest))
  rw [memberSpelling, List.append_assoc, List.cons_append, octetsOf_textChars, members?,
    skipBlanks_cons rfl]
  simp only [hread, skipBlanks_cons (c := ':') rfl, h, hparts]
  rfl

theorem octetsOf_compactMembers_singleton (m : String × Document) :
    octetsOf (compactMembers [m]) = memberSpelling m := by
  simp [compactMembers, memberSpelling, spelling, octetsOf_cons]

theorem octetsOf_compactMembers_cons (m k : String × Document) (more : List (String × Document)) :
    octetsOf (compactMembers (m :: k :: more)) =
      memberSpelling m ++ ',' :: octetsOf (compactMembers (k :: more)) := by
  simp [compactMembers, memberSpelling, spelling, octetsOf_cons]

theorem members?_compactMembers (hmembers : ∀ m ∈ members, ReadsBack m.2) (hne : members ≠ [])
    (found : List (String × Document))
    (hfuel : (octetsOf (compactMembers members)).length < fuel) :
    members? fuel (some found) (octetsOf (compactMembers members) ++ '\x7d' :: rest) =
      some (.table (found.reverse ++ members), rest) := by
  induction members generalizing found fuel with
  | nil => contradiction
  | cons m more ih =>
    obtain ⟨fuel, rfl⟩ : ∃ n, fuel = n + 1 := ⟨fuel - 1, by omega⟩
    have hm : ReadsBack m.2 := hmembers m List.mem_cons_self
    have hlength : (spelling m.2).length < (memberSpelling m).length := by
      simp [memberSpelling]
      omega
    cases more with
    | nil =>
      rw [octetsOf_compactMembers_singleton] at hfuel ⊢
      rw [members?_memberSpelling (hm fuel _ (by omega) endsNumber_brace)]
      simp [skipBlanks_cons (c := '\x7d') rfl]
    | cons k more =>
      rw [octetsOf_compactMembers_cons, List.length_append, List.length_cons] at hfuel
      rw [octetsOf_compactMembers_cons, List.append_assoc, List.cons_append,
        members?_memberSpelling (hm fuel _ (by omega) endsNumber_comma)]
      simp only [skipBlanks_cons (c := ',') rfl]
      rw [ih (fun x hx => hmembers x (List.mem_cons_of_mem m hx)) (by simp) _ (by omega)]
      simp

theorem spelling_table (members : List (String × Document)) :
    spelling (.table members) = '\x7b' :: (octetsOf (compactMembers members) ++ ['\x7d']) := by
  simp [spelling, compactChars, octetsOf_cons]

theorem exists_opens_compactMembers (hne : members ≠ []) :
    ∃ c cs, octetsOf (compactMembers members) = c :: cs ∧ opens c = true := by
  have hopen (m : String × Document) : ∃ cs, memberSpelling m = '"' :: cs :=
    ⟨_, octetsOf_textChars m.1 _⟩
  match members with
  | [m] =>
    obtain ⟨cs, hcs⟩ := hopen m
    exact ⟨'"', cs, (octetsOf_compactMembers_singleton m).trans hcs, rfl⟩
  | m :: k :: more =>
    obtain ⟨cs, hcs⟩ := hopen m
    refine ⟨'"', cs ++ ',' :: octetsOf (compactMembers (k :: more)), ?_, rfl⟩
    rw [octetsOf_compactMembers_cons, hcs, List.cons_append]

theorem readsBack_table (hmembers : ∀ m ∈ members, ReadsBack m.2) :
    ReadsBack (.table members) := by
  intro fuel rest hfuel _
  rw [spelling_table] at hfuel ⊢
  rw [List.length_cons, List.length_append, List.length_singleton] at hfuel
  obtain ⟨fuel, rfl⟩ : ∃ n, fuel = n + 1 := ⟨fuel - 1, by omega⟩
  rw [List.cons_append, List.append_assoc, List.singleton_append]
  by_cases hne : members = []
  · subst hne
    rfl
  · obtain ⟨c, cs, hcs, hc⟩ := exists_opens_compactMembers hne
    rw [hcs, List.cons_append, value?_brace hc, ← List.cons_append, ← hcs,
      members?_compactMembers hmembers hne [] (by omega)]
    rfl

end Tables

theorem readsBack_of_isExact (h : d.IsExact) : ReadsBack d := by
  induction h with
  | null => exact readsBack_null
  | bool value => exact readsBack_bool value
  | int hlow hhigh => exact readsBack_int hlow hhigh
  | text value => exact readsBack_text value
  | list h hitems => exact readsBack_list h hitems
  | table _ hmembers => exact readsBack_table hmembers

theorem read_eq_ok_iff {α ε : Type} {data : Bytes} {meaning : Document → Except ε α}
    {malformed : ε} {a : α} :
    read data meaning malformed = .ok a ↔ ∃ d, document? data = some d ∧ meaning d = .ok a := by
  unfold document? read
  cases front? (octets data) with
  | none => simp [Except.toOption]
  | some found =>
    obtain ⟨d, rest⟩ := found
    by_cases hblank : skipBlanks rest = [] <;>
      cases hmeaning : meaning d <;> simp [Except.toOption, hblank, hmeaning]

theorem exists_of_read {α ε : Type} {data : Bytes} {meaning : Document → Except ε α}
    {malformed : ε} {a : α} (h : read data meaning malformed = .ok a) :
    ∃ d, meaning d = .ok a := by
  obtain ⟨d, -, hd⟩ := read_eq_ok_iff.mp h
  exact ⟨d, hd⟩

/-- What is written on one line of an exact document is read into what the document means. -/
theorem read_compact {α ε : Type} (h : d.IsExact) (meaning : Document → Except ε α)
    (malformed : ε) : read (toBytes (compact d)) meaning malformed = meaning d := by
  have hoctets : octets (toBytes (compact d)) = spelling d := by
    rw [octets_toBytes, compact, String.toList_ofList]
    rfl
  have hfront : front? (spelling d) = some (d, []) := by
    have hread := readsBack_of_isExact h ((spelling d).length + 1) [] (by omega) (by
      simp [EndsNumber])
    rwa [List.append_nil] at hread
  rw [read, hoctets, hfront]
  cases hmeaning : meaning d <;> simp [hmeaning, skipBlanks]

end Json

end Bitplane.Document
