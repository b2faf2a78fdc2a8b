import Bitplane.Proofs.Revision.Consistency
import Mathlib

/-! # The commands of a table

A table names its command bytes one by one: those of the polygon range, the tweens and the
ignored ones. The check accepts exactly the tables that name no byte twice and no plane beyond
the last. Then every byte has one meaning, in whatever order the table lists its entries.
-/

namespace Bitplane.Revision

/-- The command bytes that a table names, as numbers and as often as it names them. -/
def commandNumbers (r : Revision) : List Nat :=
  List.range' r.polygonBase.toNat r.planeMap.length ++ r.extraCommands.map UInt8.toNat

/-- What a table says of a byte, by whichever of its entries. -/
inductive Assigns (r : Revision) (c : UInt8) : CommandKind → Prop
  | polygon {i : Nat} {plane : UInt8} : r.planeMap[i]? = some plane →
      c.toNat = r.polygonBase.toNat + i → Assigns r c (.polygon plane)
  | tween {entry : TweenCommand} : entry ∈ r.tweens → entry.command = c →
      Assigns r c (.tween entry.plane)
  | ignored {entry : IgnoredCommand} : entry ∈ r.ignored → entry.command = c →
      Assigns r c (.ignored entry.payload)
  | unknown : c.toNat ∉ r.commandNumbers → Assigns r c .unknown

variable {r : Revision} {c : UInt8} {kind : CommandKind} {tweens : List TweenCommand}
  {ignored : List IgnoredCommand}

theorem mem_extraCommands_iff : c ∈ r.extraCommands ↔
    (∃ entry ∈ r.tweens, entry.command = c) ∨ ∃ entry ∈ r.ignored, entry.command = c := by
  rw [extraCommands, List.mem_append, List.mem_map, List.mem_map]

theorem mem_commandNumbers_iff : c.toNat ∈ r.commandNumbers ↔
    c.toNat ∈ List.range' r.polygonBase.toNat r.planeMap.length ∨ c ∈ r.extraCommands := by
  rw [commandNumbers, List.mem_append, List.mem_map]
  simp only [UInt8.toNat_inj, exists_eq_right]

theorem isPolygon_iff_mem (hne : r.planeMap ≠ [])
    (hle : r.polygonBase.toNat + r.planeMap.length ≤ 256) :
    r.isPolygon c ↔ c.toNat ∈ List.range' r.polygonBase.toNat r.planeMap.length := by
  have hpos := List.length_pos_iff.mpr hne
  rw [isPolygon_iff hne, mem_bytesFrom, UInt8.le_iff_toNat_le, UInt8.le_iff_toNat_le,
    polygonLast, UInt8.toNat_ofNat', List.mem_range'_1]
  omega

/-! ## Tables that name no byte twice -/

theorem nodup_commandNumbers_iff (hne : r.planeMap ≠ [])
    (hle : r.polygonBase.toNat + r.planeMap.length ≤ 256) :
    r.commandNumbers.Nodup ↔
      r.extraCommands.Nodup ∧ ∀ c ∈ r.extraCommands, ¬r.isPolygon c := by
  have hinjective : Function.Injective UInt8.toNat := fun _ _ => UInt8.toNat_inj.mp
  rw [commandNumbers, List.nodup_append, List.nodup_map_iff hinjective]
  constructor
  · rintro ⟨-, hextra, hdisjoint⟩
    refine ⟨hextra, fun c hc hpolygon => ?_⟩
    rw [isPolygon_iff_mem hne hle] at hpolygon
    exact hdisjoint _ hpolygon _ (List.mem_map_of_mem hc) rfl
  · rintro ⟨hextra, hother⟩
    refine ⟨List.nodup_range', hextra, fun n hn m hm hsame => ?_⟩
    obtain ⟨c, hc, rfl⟩ := List.mem_map.mp hm
    exact hother c hc ((isPolygon_iff_mem hne hle).mpr (hsame ▸ hn))

theorem forall_mem_planes_iff : (∀ plane ∈ r.planes, plane.toNat < r.planeCount) ↔
    (∀ plane ∈ r.planeMap, plane.toNat < r.planeCount) ∧
      ∀ entry ∈ r.tweens, entry.plane.toNat < r.planeCount := by
  rw [planes, List.forall_mem_append, List.forall_mem_map]

/-- The check of a table, condition by condition. -/
theorem consistent_iff : r.Consistent ↔
    1 ≤ r.planeCount ∧ r.planeCount ≤ 4 ∧ r.planeMap ≠ [] ∧
      r.polygonBase.toNat + r.planeMap.length ≤ 256 ∧
      (∀ plane ∈ r.planeMap, plane.toNat < r.planeCount) ∧
      (∀ entry ∈ r.tweens, entry.plane.toNat < r.planeCount) ∧ r.commandNumbers.Nodup := by
  constructor
  · intro h
    obtain ⟨hmap, htweens⟩ := forall_mem_planes_iff.mp h.plane_lt
    have hnodup := (nodup_commandNumbers_iff h.planeMap_ne_nil h.range_le).mpr
      ⟨h.nodup_extra, h.extra_not_polygon⟩
    exact ⟨h.planeCount_pos, h.planeCount_le, h.planeMap_ne_nil, h.range_le, hmap, htweens, hnodup⟩
  · rintro ⟨hpos, hle, hne, hrange, hmap, htweens, hnodup⟩
    obtain ⟨hextra, hother⟩ := (nodup_commandNumbers_iff hne hrange).mp hnodup
    exact ⟨hpos, hle, hne, hrange, forall_mem_planes_iff.mpr ⟨hmap, htweens⟩, hextra, hother⟩

/-! ## One meaning for each byte -/

theorem exists_assigns (r : Revision) (c : UInt8) : ∃ kind, r.Assigns c kind := by
  by_cases hc : c.toNat ∈ r.commandNumbers
  case neg => exact ⟨_, .unknown hc⟩
  case pos =>
    rcases mem_commandNumbers_iff.mp hc with hrange | hextra
    · obtain ⟨hle, hlt⟩ := List.mem_range'_1.mp hrange
      have hi : c.toNat - r.polygonBase.toNat < r.planeMap.length := by omega
      exact ⟨_, .polygon (List.getElem?_eq_getElem hi) (by omega)⟩
    · rcases mem_extraCommands_iff.mp hextra with ⟨entry, hmem, heq⟩ | ⟨entry, hmem, heq⟩
      · exact ⟨_, .tween hmem heq⟩
      · exact ⟨_, .ignored hmem heq⟩

theorem Consistent.classify_unknown (h : r.Consistent) (hc : c.toNat ∉ r.commandNumbers) :
    r.classify c = .unknown := by
  rw [mem_commandNumbers_iff, not_or, mem_extraCommands_iff, not_or] at hc
  obtain ⟨hrange, htweens, hignored⟩ := hc
  have hpolygon : ¬r.isPolygon c :=
    fun hpolygon => hrange ((isPolygon_iff_mem h.planeMap_ne_nil h.range_le).mp hpolygon)
  have hnoTween : r.tweens.find? (·.command == c) = none :=
    List.find?_eq_none.mpr fun entry hmem heq => htweens ⟨entry, hmem, eq_of_beq heq⟩
  have hnoIgnored : r.ignored.find? (·.command == c) = none :=
    List.find?_eq_none.mpr fun entry hmem heq => hignored ⟨entry, hmem, eq_of_beq heq⟩
  simp only [classify, if_neg hpolygon, hnoTween, hnoIgnored]

theorem Consistent.classify_of_assigns (h : r.Consistent) (hc : r.Assigns c kind) :
    r.classify c = kind := by
  cases hc with
  | polygon hplane heq => exact h.classify_polygon hplane heq
  | tween hmem heq =>
    subst heq
    exact h.classify_tween hmem
  | ignored hmem heq =>
    subst heq
    exact h.classify_ignored hmem
  | unknown hnone => exact h.classify_unknown hnone

theorem Consistent.classify_eq_iff (h : r.Consistent) :
    r.classify c = kind ↔ r.Assigns c kind := by
  refine ⟨?_, h.classify_of_assigns⟩
  rintro rfl
  obtain ⟨kind, hkind⟩ := exists_assigns r c
  rwa [h.classify_of_assigns hkind]

theorem Consistent.plane_lt_of_classify (h : r.Consistent) {plane : UInt8}
    (hc : r.classify c = .polygon plane ∨ r.classify c = .tween plane) :
    plane.toNat < r.planeCount := by
  rcases hc with hc | hc
  · exact h.plane_lt plane (mem_planes_of_polygon hc)
  · exact h.plane_lt plane (mem_planes_of_tween hc)

theorem Consistent.classify_eq_unknown_iff (h : r.Consistent) :
    r.classify c = .unknown ↔ c.toNat ∉ r.commandNumbers := by
  rw [h.classify_eq_iff]
  refine ⟨?_, .unknown⟩
  rintro ⟨⟩
  assumption

/-! ## Entries in another order -/

/-- The same table with its tweens and ignored commands listed otherwise. -/
def relist (r : Revision) (tweens : List TweenCommand) (ignored : List IgnoredCommand) :
    Revision :=
  { r with tweens := tweens, ignored := ignored }

theorem commandNumbers_relist_perm (htweens : tweens.Perm r.tweens)
    (hignored : ignored.Perm r.ignored) :
    (r.relist tweens ignored).commandNumbers.Perm r.commandNumbers :=
  (((htweens.map _).append (hignored.map _)).map _).append_left _

theorem Consistent.relist (h : r.Consistent) (htweens : tweens.Perm r.tweens)
    (hignored : ignored.Perm r.ignored) : (r.relist tweens ignored).Consistent := by
  obtain ⟨hpos, hle, hne, hrange, hmap, hplanes, hnodup⟩ := consistent_iff.mp h
  refine consistent_iff.mpr ⟨hpos, hle, hne, hrange, hmap, fun entry hmem => ?_, ?_⟩
  · exact hplanes entry (htweens.mem_iff.mp hmem)
  · exact (commandNumbers_relist_perm htweens hignored).nodup_iff.mpr hnodup

theorem Assigns.relist (hc : r.Assigns c kind) (htweens : tweens.Perm r.tweens)
    (hignored : ignored.Perm r.ignored) : (r.relist tweens ignored).Assigns c kind := by
  cases hc with
  | polygon hplane heq => exact .polygon hplane heq
  | tween hmem heq => exact .tween (htweens.mem_iff.mpr hmem) heq
  | ignored hmem heq => exact .ignored (hignored.mem_iff.mpr hmem) heq
  | unknown hnone =>
    exact .unknown fun hmem =>
      hnone ((commandNumbers_relist_perm htweens hignored).mem_iff.mp hmem)

theorem Consistent.classify_relist (h : r.Consistent) (htweens : tweens.Perm r.tweens)
    (hignored : ignored.Perm r.ignored) (c : UInt8) :
    (r.relist tweens ignored).classify c = r.classify c :=
  (h.relist htweens hignored).classify_of_assigns
    ((h.classify_eq_iff.mp rfl).relist htweens hignored)

/-- The check accepts a table exactly if it has one to four planes, a polygon range that is
not empty and ends with the bytes, no plane beyond the last and no byte named twice. Under an
accepted table a byte means what the table assigns to it and nothing else: a plane that is
there, or nothing known if no entry names it, in whatever order the entries are listed. -/
theorem validate_accepts_unambiguous_tables (r : Revision) :
    (r.validate = .ok () ↔
      1 ≤ r.planeCount ∧ r.planeCount ≤ 4 ∧ r.planeMap ≠ [] ∧
        r.polygonBase.toNat + r.planeMap.length ≤ 256 ∧
        (∀ plane ∈ r.planeMap, plane.toNat < r.planeCount) ∧
        (∀ entry ∈ r.tweens, entry.plane.toNat < r.planeCount) ∧ r.commandNumbers.Nodup) ∧
    (r.validate = .ok () → ∀ c : UInt8,
      (∀ kind, r.classify c = kind ↔ r.Assigns c kind) ∧
      (∀ plane, r.classify c = .polygon plane ∨ r.classify c = .tween plane →
        plane.toNat < r.planeCount) ∧
      (r.classify c = .unknown ↔ c.toNat ∉ r.commandNumbers) ∧
      ∀ tweens ignored, tweens.Perm r.tweens → ignored.Perm r.ignored →
        (r.relist tweens ignored).classify c = r.classify c) := by
  refine ⟨validate_eq_ok_iff.trans consistent_iff, fun hvalid c => ?_⟩
  have h := validate_eq_ok_iff.mp hvalid
  exact ⟨fun _ => h.classify_eq_iff, fun _ => h.plane_lt_of_classify, h.classify_eq_unknown_iff,
    fun _ _ htweens hignored => h.classify_relist htweens hignored c⟩

/-- A polygon range that ends with the last byte, and two tweens the other way around. -/
theorem validate_accepts_range_to_last_byte :
    let r : Revision := ⟨"", 2, 0xFE, [1, 0], [⟨0xE6, 0⟩, ⟨0xE8, 1⟩], [⟨0x10, 3⟩], .abort, none⟩
    r.validate = .ok () ∧ r.commandNumbers.Nodup ∧
      (r.classify 0xFF = .unknown ↔ (0xFF : UInt8).toNat ∉ r.commandNumbers) ∧
      (r.relist [⟨0xE8, 1⟩, ⟨0xE6, 0⟩] [⟨0x10, 3⟩]).classify 0xE8 = r.classify 0xE8 ∧
      r.classify 0xE8 = .tween 1 := by
  intro r
  have hvalid : r.validate = .ok () := by decide
  obtain ⟨haccepts, hmeaning⟩ := validate_accepts_unambiguous_tables r
  obtain ⟨-, -, -, -, -, -, hnodup⟩ := haccepts.mp hvalid
  obtain ⟨-, -, hunknown, -⟩ := hmeaning hvalid 0xFF
  obtain ⟨-, -, -, hrelist⟩ := hmeaning hvalid 0xE8
  exact ⟨hvalid, hnodup, hunknown, hrelist _ _ (.swap _ _ _) (.refl _), by decide⟩

end Bitplane.Revision
