import Bitplane.Proofs.Script.Document
import Bitplane.Revision.Document

/-! # Revisions as documents read back

A revision is read from the document it is written as, if its numbers have 64 bits. A field
may be missing from the document when it says no more than its default.
-/

namespace Bitplane

namespace Document

variable {α : Type} {read : Document → Option α} {a default : α} {d : Document}
  {members : List (String × Document)} {name : String} {p : Prop} [Decidable p]

def without (names : List String) : Document → Document
  | .table members => .table (members.filter (·.1 ∉ names))
  | d => d

theorem filter_eq_singleton (hunique : (members.map Prod.fst).Nodup) (h : (name, d) ∈ members) :
    members.filter (·.1 == name) = [(name, d)] := by
  induction members with
  | nil => cases h
  | cons m rest ih =>
    rw [List.map_cons, List.nodup_cons] at hunique
    rcases List.mem_cons.mp h with rfl | h
    · have hrest : rest.filter (·.1 == name) = [] := by
        refine List.filter_eq_nil_iff.mpr fun k hk hname => hunique.1 ?_
        exact List.mem_map.mpr ⟨k, hk, eq_of_beq hname⟩
      rw [List.filter_cons_of_pos (by simp), hrest]
    · have hne : m.1 ≠ name := fun hm => hunique.1 (List.mem_map.mpr ⟨_, h, hm.symm⟩)
      rw [List.filter_cons_of_neg (by simpa using hne), ih hunique.2 h]

theorem uniqueMember?_filter (hunique : (members.map Prod.fst).Nodup) (names : List String)
    (h : (name, d) ∈ members) :
    uniqueMember? (members.filter (·.1 ∉ names)) name =
      some (if name ∈ names then none else some d) := by
  have hone : (members.filter (·.1 ∉ names)).filter (·.1 == name) =
      [(name, d)].filter (·.1 ∉ names) := by
    simp only [← filter_eq_singleton hunique h, List.filter_filter, Bool.and_comm]
  rw [uniqueMember?, hone]
  by_cases hname : name ∈ names <;> simp [hname]

theorem fields?_without {fieldNames : List String} (hnames : members.map Prod.fst = fieldNames)
    (hunique : fieldNames.Nodup) (names : List String) :
    fields? fieldNames (without names (.table members)) =
      some (members.map fun m => if m.1 ∈ names then none else some m.2) := by
  subst hnames
  rw [without, fields?, List.mapM_map]
  exact mapM_eq_some_map fun _ hm => uniqueMember?_filter hunique names hm

theorem required?_some (read : Document → Option α) (d : Document) :
    required? read (some d) = read d := rfl

theorem required?_ite_eq_some_iff (h : read d = some a) :
    required? read (if p then none else some d) = some a ↔ ¬p := by
  by_cases hp : p <;> simp [required?, hp, h]

theorem orDefault?_ite_eq_some_iff (h : read d = some a) :
    orDefault? read default (if p then none else some d) = some a ↔ (p → a = default) := by
  by_cases hp : p <;> simp [orDefault?, hp, h, eq_comm]

theorem byte?_byteDocument (b : UInt8) : (byteDocument b).byte? = some b := byte?_int b

theorem isExact_byteDocument (b : UInt8) : (byteDocument b).IsExact := isExact_byte b

theorem without_nil (d : Document) : d.without [] = d := by
  cases d <;> simp [without]

theorem IsExact.without (h : d.IsExact) (names : List String) : (d.without names).IsExact := by
  cases h with
  | table hmembers => exact .table fun m hm => hmembers m (List.mem_filter.mp hm).1
  | null => exact .null
  | bool value => exact .bool value
  | int hlow hhigh => exact .int hlow hhigh
  | text value => exact .text value
  | list hitems => exact .list hitems

end Document

open Document

namespace TweenCommand

theorem ofDocument?_document (t : TweenCommand) : ofDocument? .strict t.document = some t := by
  have hfields : Document.fields? fieldNames t.document =
      some [some (byteDocument t.command), some (byteDocument t.plane)] := by
    simp [fieldNames, document, fields?, uniqueMember?]
  simp [ofDocument?, Reading.strict, hfields, required?, byte?_byteDocument]

theorem isExact_document (t : TweenCommand) : t.document.IsExact :=
  .cons (isExact_byteDocument _) (.cons (isExact_byteDocument _) .nil)

end TweenCommand

namespace IgnoredCommand

variable {c : IgnoredCommand} {d : Document}

theorem ofDocument?_eq_some_iff : ofDocument? .strict d = some c ↔ ∃ command payload,
    d.fields? fieldNames = some [command, payload] ∧
      required? byte? command = some c.command ∧ required? size? payload = some c.payload := by
  unfold ofDocument?
  constructor
  · intro h
    split at h
    case h_2 => simp at h
    case h_1 command payload hfields =>
      simp only [bind, Option.bind_eq_some_iff, pure, Option.some.injEq] at h
      obtain ⟨_, hcommand, _, hpayload, rfl⟩ := h
      exact ⟨command, payload, hfields, hcommand, hpayload⟩
  · rintro ⟨command, payload, hfields, hcommand, hpayload⟩
    simp only [Reading.strict, hfields, hcommand, hpayload, bind, Option.bind_some, pure]

theorem ofDocument?_document (h : c.payload < 0x10000000000000000) :
    ofDocument? .strict c.document = some c := by
  refine ofDocument?_eq_some_iff.mpr ⟨some (byteDocument c.command), some (.int c.payload),
    ?fields, ?command, ?payload⟩
  case fields => simp [document, fields?, fieldNames, uniqueMember?]
  case command => rw [required?_some, byte?_byteDocument]
  case payload => rw [required?_some, size?_int h]

theorem isExact_document (h : c.payload < 0x10000000000000000) : c.document.IsExact :=
  .cons (isExact_byteDocument _) (.cons (.int (by omega) (by omega)) .nil)

theorem payload_lt (h : ofDocument? .strict d = some c) : c.payload < 0x10000000000000000 := by
  obtain ⟨_, payload, -, -, hpayload⟩ := ofDocument?_eq_some_iff.mp h
  obtain ⟨_, -, hread⟩ := Option.bind_eq_some_iff.mp hpayload
  exact size?_lt hread

end IgnoredCommand

namespace UnknownPolicy

variable {u : UnknownPolicy} {d : Document}

def FitsWord : UnknownPolicy → Prop
  | .skip bytes => bytes < 0x10000000000000000
  | .abort => True

theorem ofDocument?_table {reading : Reading} {members : List (String × Document)}
    {policy : String} {bytes : Option Document} (hkeeps : reading.keeps (.table members) = true)
    (hpolicy : uniqueMember? members "policy" = some (some (.text policy)))
    (hne : policy ≠ "abort") (hbytes : uniqueMember? members "bytes" = some bytes) :
    ofDocument? reading (.table members) = ofParts? policy bytes false := by
  simp [ofDocument?, hkeeps, hpolicy, hne, hbytes]

theorem ofParts?_skip (bytes : Option Document) (isList : Bool) :
    ofParts? "skip" bytes isList = (required? size? bytes).map .skip := rfl

theorem ofDocument?_document (h : u.FitsWord) : ofDocument? .strict u.document = some u := by
  cases u with
  | skip bytes =>
    have hread : ofParts? "skip" (some (.int bytes)) false = some (.skip bytes) := by
      rw [ofParts?_skip, required?_some, size?_int h, Option.map_some]
    have hpolicy : uniqueMember? [("policy", .text "skip"), ("bytes", .int bytes)] "policy" =
        some (some (.text "skip")) := by simp [uniqueMember?]
    have hbytes : uniqueMember? [("policy", .text "skip"), ("bytes", .int bytes)] "bytes" =
        some (some (.int bytes)) := by simp [uniqueMember?]
    rw [document, ofDocument?_table ?keeps hpolicy (by decide) hbytes, hread]
    case keeps => simp [Reading.strict, isSound, membersSound]
  | abort =>
    simp [document, ofDocument?, Reading.strict, isSound, membersSound, uniqueMember?]

theorem isExact_document (h : u.FitsWord) : u.document.IsExact := by
  cases u with
  | skip bytes =>
    have hbytes : bytes < 0x10000000000000000 := h
    exact .cons (.text _) (.cons (.int (by omega) (by omega)) .nil)
  | abort => exact .cons (.text _) .nil

theorem fitsWord_of_ofParts? {policy : String} {bytes : Option Document} {isList : Bool}
    (h : ofParts? policy bytes isList = some u) : u.FitsWord := by
  unfold ofParts? at h
  split at h
  · simp only [required?, Option.map_eq_some_iff, Option.bind_eq_some_iff] at h
    obtain ⟨n, ⟨_, -, hn⟩, rfl⟩ := h
    exact size?_lt hn
  · split at h
    · simp at h
    · cases h
      trivial
  · simp at h

theorem fitsWord_of_ofDocument? (h : ofDocument? .strict d = some u) : u.FitsWord := by
  unfold ofDocument? at h
  split at h
  · simp at h
  · split at h
    · simp only [bind, Option.bind_eq_some_iff] at h
      obtain ⟨policy, -, h⟩ := h
      split at h
      · split at h
        · cases h
          trivial
        · obtain ⟨bytes, -, h⟩ := Option.bind_eq_some_iff.mp h
          exact fitsWord_of_ofParts? h
      · cases h
    · exact fitsWord_of_ofParts? h
    · exact fitsWord_of_ofParts? h
    · simp at h

end UnknownPolicy

namespace Revision

variable {r : Revision} {d : Document} {data : Bytes}

/-- A revision whose numbers have 64 bits. -/
structure FitsWords (r : Revision) : Prop where
  planeCount : r.planeCount < 0x10000000000000000
  payload : ∀ c ∈ r.ignored, c.payload < 0x10000000000000000
  unknown : r.unknown.FitsWord

/-- The fields that may be missing since they hold what they stand for when missing. -/
def Omissible (r : Revision) (name : String) : Prop :=
  name = "tweens" ∧ r.tweens = [] ∨ name = "ignored" ∧ r.ignored = [] ∨
    name = "max_draws_per_frame" ∧ r.maxDraws = none

theorem ofDocument?_eq_some_iff : ofDocument? .strict d = some r ↔
    ∃ name planeCount base planeMap tweens ignored unknown maxDraws,
      d.fields? fieldNames =
        some [name, planeCount, base, planeMap, tweens, ignored, unknown, maxDraws] ∧
      required? text? name = some r.name ∧
      required? size? planeCount = some r.planeCount ∧
      required? byte? base = some r.polygonBase ∧
      required? (listOf? byte?) planeMap = some r.planeMap ∧
      orDefault? (listOf? (TweenCommand.ofDocument? .strict)) [] tweens = some r.tweens ∧
      orDefault? (listOf? (IgnoredCommand.ofDocument? .strict)) [] ignored = some r.ignored ∧
      required? (UnknownPolicy.ofDocument? .strict) unknown = some r.unknown ∧
      orDefault? (orNull? byte?) none maxDraws = some r.maxDraws := by
  unfold ofDocument?
  constructor
  · intro h
    split at h
    case h_2 => simp at h
    case h_1 name planeCount base planeMap tweens ignored unknown maxDraws hfields =>
      simp only [bind, Option.bind_eq_some_iff, pure, Option.some.injEq] at h
      obtain ⟨_, hname, _, hcount, _, hbase, _, hmap, _, htweens, _, hignored, _, hunknown, _,
        hmax, rfl⟩ := h
      exact ⟨name, planeCount, base, planeMap, tweens, ignored, unknown, maxDraws, hfields, hname,
        hcount, hbase, hmap, htweens, hignored, hunknown, hmax⟩
  · rintro ⟨name, planeCount, base, planeMap, tweens, ignored, unknown, maxDraws, hfields, hname,
      hcount, hbase, hmap, htweens, hignored, hunknown, hmax⟩
    have hstrict : Reading.strict.fields? fieldNames d = _ := hfields
    rw [hstrict]
    simp only [Reading.strict] at htweens hignored hunknown ⊢
    simp only [hname, hcount, hbase, hmap, htweens, hignored,
      hunknown, hmax, bind, Option.bind_some, pure]

theorem isExact_document (h : r.FitsWords) : r.document.IsExact := by
  have hcount : (Document.int r.planeCount).IsExact := by
    have := h.planeCount
    exact .int (by omega) (by omega)
  have hmaxDraws : ((r.maxDraws.map byteDocument).getD .null).IsExact := by
    cases r.maxDraws with
    | none => exact .null
    | some b => exact isExact_byteDocument b
  exact .cons (.text _) <| .cons hcount <| .cons (isExact_byteDocument _) <|
    .cons (.list (List.forall_mem_map.mpr fun b _ => isExact_byteDocument b)) <|
    .cons (.list (List.forall_mem_map.mpr fun t _ => t.isExact_document)) <|
    .cons (.list (List.forall_mem_map.mpr fun c hc =>
      IgnoredCommand.isExact_document (h.payload c hc))) <|
    .cons (UnknownPolicy.isExact_document h.unknown) <| .cons hmaxDraws .nil

theorem nodup_fieldNames : fieldNames.Nodup := by decide

theorem orNull?_byteDocument (b : Option UInt8) :
    orNull? byte? ((b.map byteDocument).getD .null) = some b := by
  cases b with
  | none => rfl
  | some b =>
    rw [Option.map_some, Option.getD_some, byteDocument, orNull?, ← byteDocument,
      byte?_byteDocument, Option.map_some]
    simp

/-- Without the fields of some names a revision is still read from its document, exactly if all
of these may be missing. -/
theorem ofDocument?_without_iff (h : r.FitsWords) (names : List String) :
    ofDocument? .strict (r.document.without names) = some r ↔
      ∀ name ∈ fieldNames, name ∈ names → r.Omissible name := by
  have hfields : (r.document.without names).fields? fieldNames = some _ :=
    fields?_without (by rfl) nodup_fieldNames names
  have hname : text? (.text r.name) = some r.name := rfl
  have hignored := listOf?_map fun c hc => IgnoredCommand.ofDocument?_document (h.payload c hc)
  rw [ofDocument?_eq_some_iff]
  simp only [hfields, List.map_cons, List.map_nil, Option.some.injEq, List.cons.injEq, and_true,
    and_assoc, exists_and_left, exists_eq_left']
  rw [required?_ite_eq_some_iff hname, required?_ite_eq_some_iff (size?_int h.planeCount),
    required?_ite_eq_some_iff (byte?_byteDocument _),
    required?_ite_eq_some_iff (listOf?_map fun b _ => byte?_byteDocument b),
    orDefault?_ite_eq_some_iff (listOf?_map fun t _ => t.ofDocument?_document),
    orDefault?_ite_eq_some_iff hignored,
    required?_ite_eq_some_iff (UnknownPolicy.ofDocument?_document h.unknown),
    orDefault?_ite_eq_some_iff (orNull?_byteDocument _)]
  simp [fieldNames, Omissible]

theorem fitsWords_of_ofDocument? (h : ofDocument? .strict d = some r) : r.FitsWords := by
  obtain ⟨_, planeCount, _, _, _, ignored, unknown, _, -, -, hcount, -, -, -, hignored, hunknown,
    -⟩ := ofDocument?_eq_some_iff.mp h
  obtain ⟨_, -, hcount⟩ := Option.bind_eq_some_iff.mp hcount
  obtain ⟨_, -, hunknown⟩ := Option.bind_eq_some_iff.mp hunknown
  refine ⟨size?_lt hcount, fun c hc => ?_, UnknownPolicy.fitsWord_of_ofDocument? hunknown⟩
  cases ignored with
  | none =>
    have hnil : r.ignored = [] := (Option.some.inj hignored).symm
    simp [hnil] at hc
  | some list =>
    cases list with
    | list items =>
      obtain ⟨item, -, hitem⟩ := exists_of_mem_mapM hignored hc
      exact IgnoredCommand.payload_lt hitem
    | _ => simp [orDefault?, listOf?] at hignored

theorem ofJson_eq_ok_iff_of_isExact (h : d.IsExact) :
    ofJson (Text.toBytes (Json.compact d)) = .ok r ↔ ofDocument? .strict d = some r := by
  rw [ofJson, Json.read_compact h]
  cases ofDocument? .strict d <;> simp

theorem fitsWords_of_ofJson (h : ofJson data = .ok r) : r.FitsWords := by
  obtain ⟨d, hd⟩ := Json.exists_of_read h
  cases hread : ofDocument? .strict d with
  | none => simp [hread] at hd
  | some _ =>
    rw [hread] at hd
    cases hd
    exact fitsWords_of_ofDocument? hread

/-- A revision is read from its own JSON exactly if its numbers have 64 bits, and so it is
without fields, exactly if what these hold is what a missing field stands for. -/
theorem json_is_read_back_without_defaults (r : Revision) :
    (ofJson (Text.toBytes r.json) = .ok r ↔ r.FitsWords) ∧
      ∀ names, ofJson (Text.toBytes (Json.compact (r.document.without names))) = .ok r ↔
        r.FitsWords ∧ ∀ name ∈ fieldNames, name ∈ names → r.Omissible name := by
  have hwithout : ∀ names, ofJson (Text.toBytes (Json.compact (r.document.without names))) = .ok r ↔
      r.FitsWords ∧ ∀ name ∈ fieldNames, name ∈ names → r.Omissible name := by
    intro names
    constructor
    · intro hread
      have hfits := fitsWords_of_ofJson hread
      exact ⟨hfits, (ofDocument?_without_iff hfits names).mp
        ((ofJson_eq_ok_iff_of_isExact ((isExact_document hfits).without names)).mp hread)⟩
    · rintro ⟨hfits, homissible⟩
      exact (ofJson_eq_ok_iff_of_isExact ((isExact_document hfits).without names)).mpr
        ((ofDocument?_without_iff hfits names).mpr homissible)
  refine ⟨?whole, hwithout⟩
  case whole =>
    have hall := hwithout []
    simp only [without_nil, List.not_mem_nil, false_implies, implies_true, and_true] at hall
    exact hall

end Revision

end Bitplane
