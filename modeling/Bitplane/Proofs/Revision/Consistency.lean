import Bitplane.Revision

/-! # Consistent revisions

What the check of a revision finds out: the bytes that the table names are told
apart, and no command names a plane beyond the last.
-/

namespace Bitplane.Revision

structure Consistent (r : Revision) : Prop where
  planeCount_pos : 0 < r.planeCount
  planeCount_le : r.planeCount ≤ maxPlanes
  planeMap_ne_nil : r.planeMap ≠ []
  range_le : r.polygonBase.toNat + r.planeMap.length ≤ 256
  plane_lt : ∀ plane ∈ r.planes, plane.toNat < r.planeCount
  nodup_extra : r.extraCommands.Nodup
  extra_not_polygon : ∀ c ∈ r.extraCommands, ¬r.isPolygon c

theorem mem_bytesFrom {first last c : UInt8} : c ∈ bytesFrom first last ↔ first ≤ c ∧ c ≤ last := by
  have hc := c.toNat_lt
  rw [bytesFrom, List.mem_map, UInt8.le_iff_toNat_le, UInt8.le_iff_toNat_le]
  simp only [List.mem_range, ← UInt8.toNat_inj, UInt8.toNat_ofNat']
  constructor
  · rintro ⟨i, hi, hcast⟩
    have := last.toNat_lt
    omega
  · rintro ⟨hfirst, hlast⟩
    exact ⟨c.toNat - first.toNat, by omega, by omega⟩

theorem firstRepeated_eq_none_iff {seen cs : List UInt8} :
    firstRepeated seen cs = none ↔ cs.Nodup ∧ ∀ c ∈ cs, c ∉ seen := by
  induction cs generalizing seen with
  | nil => simp [firstRepeated]
  | cons c cs ih =>
    rw [firstRepeated]
    split
    case isTrue hc =>
      constructor
      · intro h
        cases h
      · rintro ⟨-, hseen⟩
        exact absurd hc (hseen c List.mem_cons_self)
    case isFalse hc =>
      rw [ih, List.nodup_cons]
      constructor
      · rintro ⟨hnodup, hseen⟩
        refine ⟨⟨fun hmem => hseen c hmem List.mem_cons_self, hnodup⟩, ?_⟩
        intro d hd
        rcases List.mem_cons.mp hd with rfl | hd
        · exact hc
        · exact fun h => hseen d hd (List.mem_cons_of_mem c h)
      · rintro ⟨⟨hfresh, hnodup⟩, hseen⟩
        refine ⟨hnodup, fun d hd => ?_⟩
        rw [List.mem_cons, not_or]
        exact ⟨fun h => hfresh (h ▸ hd), hseen d (List.mem_cons_of_mem c hd)⟩

variable {r : Revision}

theorem isPolygon_iff (h : r.planeMap ≠ []) (c : UInt8) :
    r.isPolygon c ↔ c ∈ bytesFrom r.polygonBase r.polygonLast := by
  simp [isPolygon, mem_bytesFrom, h]

theorem validate_eq_ok_iff : r.validate = .ok () ↔ r.Consistent := by
  have hplanes : r.planes.find? (r.planeCount ≤ ·.toNat) = none ↔
      ∀ plane ∈ r.planes, plane.toNat < r.planeCount := by
    simp
  constructor
  · intro h
    unfold validate at h
    split at h
    · cases h
    split at h
    · cases h
    split at h
    · cases h
    split at h
    · cases h
    split at h
    · cases h
    case h_2 hcount hmap hrange _ hfind _ hrepeated =>
      rw [List.isEmpty_iff] at hmap
      obtain ⟨hnodup, hextra⟩ := firstRepeated_eq_none_iff.mp hrepeated
      exact
        { planeCount_pos := by omega
          planeCount_le := by omega
          planeMap_ne_nil := hmap
          range_le := by omega
          plane_lt := hplanes.mp hfind
          nodup_extra := hnodup
          extra_not_polygon := fun c hc hp => hextra c hc ((isPolygon_iff hmap c).mp hp) }
  · intro h
    have hrepeated : firstRepeated (bytesFrom r.polygonBase r.polygonLast) r.extraCommands = none :=
      firstRepeated_eq_none_iff.mpr ⟨h.nodup_extra, fun c hc hp =>
        h.extra_not_polygon c hc ((isPolygon_iff h.planeMap_ne_nil c).mpr hp)⟩
    have hpos := h.planeCount_pos
    have hle := h.planeCount_le
    have hrange := h.range_le
    rw [validate, if_neg (by omega), if_neg (by simpa using h.planeMap_ne_nil),
      if_neg (by omega), hplanes.mpr h.plane_lt, hrepeated]

theorem validate_fourPlane : fourPlane.validate = .ok () := by rfl

variable {c plane : UInt8}

theorem exists_plane_of_isPolygon (h : r.isPolygon c) :
    r.polygonBase.toNat ≤ c.toNat ∧
      ∃ plane, r.planeMap[c.toNat - r.polygonBase.toNat]? = some plane ∧
        r.classify c = .polygon plane := by
  have hrange := h
  simp only [isPolygon, Bool.and_eq_true, Bool.not_eq_true', List.isEmpty_eq_false_iff,
    decide_eq_true_eq, UInt8.le_iff_toNat_le, polygonLast, UInt8.toNat_ofNat'] at hrange
  obtain ⟨⟨hne, hbase⟩, hlast⟩ := hrange
  have hpos := List.length_pos_iff.mpr hne
  have hlt : c.toNat - r.polygonBase.toNat < r.planeMap.length := by omega
  refine ⟨hbase, _, List.getElem?_eq_getElem hlt, ?_⟩
  rw [classify, if_pos h, List.getD_eq_getElem?_getD, List.getElem?_eq_getElem hlt,
    Option.getD_some]

theorem mem_planes_of_polygon (hc : r.classify c = .polygon plane) : plane ∈ r.planes := by
  by_cases hpolygon : r.isPolygon c
  · obtain ⟨-, found, hfound, hclass⟩ := exists_plane_of_isPolygon hpolygon
    cases hclass.symm.trans hc
    exact List.mem_append_left _ (List.mem_of_getElem? hfound)
  · rw [classify, if_neg hpolygon] at hc
    split at hc
    · cases hc
    · split at hc <;> cases hc

theorem mem_planes_of_tween (hc : r.classify c = .tween plane) : plane ∈ r.planes := by
  unfold classify at hc
  split at hc
  · cases hc
  split at hc
  case h_1 t hfind =>
    injection hc with hc
    exact hc ▸ List.mem_append_right _ (List.mem_map_of_mem (List.mem_of_find?_eq_some hfind))
  case h_2 =>
    split at hc <;> cases hc

/-! ## The meaning of the bytes in the table -/

theorem find?_of_nodup {α : Type} {f : α → UInt8} {entries : List α} {entry : α}
    (hnodup : (entries.map f).Nodup) (hmem : entry ∈ entries) :
    entries.find? (f · == f entry) = some entry := by
  induction entries with
  | nil => cases hmem
  | cons first rest ih =>
    obtain ⟨hfresh, hrest⟩ := List.nodup_cons.mp hnodup
    rcases List.mem_cons.mp hmem with rfl | hmem
    · exact List.find?_cons_of_pos (by simp)
    · have hne : f first ≠ f entry := fun heq => hfresh (heq ▸ List.mem_map_of_mem hmem)
      rw [List.find?_cons_of_neg (by simpa using hne)]
      exact ih hrest hmem

theorem Consistent.classify_polygon (h : r.Consistent) {i : Nat}
    (hplane : r.planeMap[i]? = some plane) (hc : c.toNat = r.polygonBase.toNat + i) :
    r.classify c = .polygon plane := by
  have hlt : i < r.planeMap.length := (List.getElem?_eq_some_iff.mp hplane).1
  have hbyte := c.toNat_lt
  have hpolygon : r.isPolygon c := by
    rw [isPolygon_iff h.planeMap_ne_nil, mem_bytesFrom, UInt8.le_iff_toNat_le,
      UInt8.le_iff_toNat_le, polygonLast, UInt8.toNat_ofNat']
    omega
  have hi : c.toNat - r.polygonBase.toNat = i := by omega
  rw [classify, if_pos hpolygon, hi, List.getD_eq_getElem?_getD, hplane, Option.getD_some]

theorem Consistent.classify_tween (h : r.Consistent) {entry : TweenCommand}
    (hmem : entry ∈ r.tweens) : r.classify entry.command = .tween entry.plane := by
  have hextra : entry.command ∈ r.extraCommands :=
    List.mem_append_left _ (List.mem_map_of_mem hmem)
  obtain ⟨hnodup, -, -⟩ := List.nodup_append.mp h.nodup_extra
  rw [classify, if_neg (h.extra_not_polygon _ hextra), find?_of_nodup hnodup hmem]

theorem Consistent.classify_ignored (h : r.Consistent) {entry : IgnoredCommand}
    (hmem : entry ∈ r.ignored) : r.classify entry.command = .ignored entry.payload := by
  have hextra : entry.command ∈ r.extraCommands :=
    List.mem_append_right _ (List.mem_map_of_mem hmem)
  obtain ⟨-, hnodup, hdisjoint⟩ := List.nodup_append.mp h.nodup_extra
  have htweens : r.tweens.find? (·.command == entry.command) = none := by
    refine List.find?_eq_none.mpr fun tween htween heq => ?_
    exact hdisjoint _ (List.mem_map_of_mem htween) _ (List.mem_map_of_mem hmem) (eq_of_beq heq)
  rw [classify, if_neg (h.extra_not_polygon _ hextra), htweens]
  dsimp only
  rw [find?_of_nodup hnodup hmem]

end Bitplane.Revision
