import Bitplane.Folder
import Mathlib.Tactic.SplitIfs

/-! # Reading what was written

A file that was written is found again under the same path: writing it takes no directory
away and puts no file in the place of one.
-/

namespace Bitplane

namespace Place

variable {place other : Place} {name : String}

/-- A place that a path can name: no slash stands inside a name. -/
def IsPlain (place : Place) : Prop := ∀ name ∈ place, '/' ∉ name.toList

theorem isPlain_start (path : String) : (start path).IsPlain := by
  unfold start IsPlain
  split <;> simp

theorem IsPlain.append (h : place.IsPlain) (hname : '/' ∉ name.toList) :
    (place ++ [name]).IsPlain := by
  intro n hn
  rcases List.mem_append.mp hn with hn | hn
  · exact h n hn
  · rwa [List.mem_singleton.mp hn]

theorem IsPlain.next (h : place.IsPlain) (hname : '/' ∉ name.toList) :
    (place.next name).IsPlain := by
  unfold Place.next Place.above
  split_ifs
  · exact h
  · exact h
  · exact h.append (by decide)
  · exact fun n hn => h n (List.dropLast_subset place hn)
  · exact h.append hname

theorem not_mem_of_mem_splitOn {a : Char} {cs part : List Char} (h : part ∈ cs.splitOn a) :
    a ∉ part := by
  induction cs generalizing part with
  | nil => simp_all
  | cons c rest ih =>
    rw [List.splitOn_cons_eq_if_modifyHead] at h
    split at h
    case isTrue =>
      rcases List.mem_cons.mp h with rfl | h
      · exact List.not_mem_nil
      · exact ih h
    case isFalse hc =>
      cases hrest : rest.splitOn a with
      | nil => simp [hrest] at h
      | cons first parts =>
        simp only [hrest, List.modifyHead_cons, List.mem_cons, beq_iff_eq] at h ih hc
        rcases h with rfl | h
        · simp [ih (.inl rfl), Ne.symm hc]
        · exact ih (.inr h)

theorem isPlain_names (path : String) : IsPlain (names path) := by
  intro name hname
  obtain ⟨cs, hcs, rfl⟩ := List.mem_map.mp hname
  rw [String.toList_ofList]
  exact not_mem_of_mem_splitOn hcs

theorem names_path (h : place.IsPlain) (hne : place ≠ []) : names place.path = place := by
  have hslash : ∀ cs ∈ place.map String.toList, '/' ∉ cs := by simpa [IsPlain] using h
  rw [names, Place.path, String.toList_intercalate,
    show "/".toList = ['/'] from rfl, List.splitOn_intercalate _ hslash (by simpa using hne),
    List.map_map]
  simp

end Place

namespace Folder

variable {α : Type} {f g : Folder α} {place other next : Place} {name path : String}
  {names : List String} {content : α}

theorem isDirectory_of_path_eq_empty (h : place.IsPlain) (hpath : place.path = "") :
    f.isDirectory place = true := by
  by_cases hne : place = []
  · simp [hne, isDirectory]
  · have hplace : place = [""] := by
      rw [← Place.names_path h hne, hpath]
      rfl
    simp [hplace, isDirectory]

theorem isDirectory_eq_of_path_eq (h : place.IsPlain) (hother : other.IsPlain)
    (hpath : place.path = other.path) : f.isDirectory place = f.isDirectory other := by
  by_cases hempty : place.path = ""
  · rw [isDirectory_of_path_eq_empty h hempty,
      isDirectory_of_path_eq_empty hother (hpath.symm.trans hempty)]
  · have hne {q : Place} (hq : q.path ≠ "") : q ≠ [] := fun h => hq (by rw [h]; rfl)
    have heq : place = other := by
      rw [← Place.names_path h (hne hempty), hpath,
        Place.names_path hother (hne (hpath ▸ hempty))]
    rw [heq]

theorem follow_eq_ok_iff : f.follow place name = .ok next ↔ f.isFile place = false ∧
    f.isDirectory place = true ∧ name.utf8ByteSize ≤ longestName ∧ place.next name = next := by
  unfold follow
  split_ifs with hfile hdirectory hlong
  · simp [hfile]
  · simp_all
  · simp [Nat.not_le_of_lt hlong]
  · simp_all [Nat.le_of_not_lt hlong]

/-- What is found in a folder is found in every other with the same directories and no file
in the place of one. -/
theorem foldlM_follow_of_agree (hagree : ∀ q : Place, q.IsPlain → f.isFile q = false →
      f.isDirectory q = true → g.isFile q = false ∧ g.isDirectory q = true)
    (hnames : ∀ name ∈ names, '/' ∉ name.toList) (h : place.IsPlain)
    (hfound : names.foldlM f.follow place = .ok next) :
    names.foldlM g.follow place = .ok next ∧ next.IsPlain := by
  induction names generalizing place with
  | nil =>
    obtain rfl := Except.ok.inj hfound
    exact ⟨rfl, h⟩
  | cons name rest ih =>
    rw [List.foldlM_cons] at hfound ⊢
    cases hstep : f.follow place name with
    | error obstacle => simp [hstep, bind, Except.bind] at hfound
    | ok q =>
      obtain ⟨hfile, hdirectory, hshort, rfl⟩ := follow_eq_ok_iff.mp hstep
      obtain ⟨hfile', hdirectory'⟩ := hagree place h hfile hdirectory
      rw [follow_eq_ok_iff.mpr ⟨hfile', hdirectory', hshort, rfl⟩]
      rw [hstep] at hfound
      exact ih (fun n hn => hnames n (List.mem_cons_of_mem _ hn))
        (h.next (hnames name List.mem_cons_self)) hfound

theorem locate_eq_ok_iff : f.locate path = .ok place ↔ path.isEmpty = false ∧
    path.utf8ByteSize ≤ longestPath ∧
      (Place.names path).foldlM f.follow (.start path) = .ok place := by
  unfold locate walk
  split_ifs with hempty hlong
  · simp [hempty]
  · simp [Nat.not_le_of_lt hlong]
  · simp_all [Nat.le_of_not_lt hlong]

def insert (f : Folder α) (name : String) (content : α) : Folder α :=
  { f with files := (name, content) :: f.files.filter (·.1 != name) }

theorem write?_eq_some_iff : f.write? path content = some (name, g) ↔
    ∃ place, f.locate path = .ok place ∧ f.isDirectory place = false ∧ place.path = name ∧
      f.insert place.path content = g := by
  unfold write? insert
  cases f.locate path with
  | error obstacle => simp
  | ok place => cases hdirectory : f.isDirectory place <;> simp [hdirectory]

theorem lookup_filter_of_ne {files : List (String × α)} {key : String} (h : key ≠ name) :
    (files.filter (·.1 != name)).lookup key = files.lookup key := by
  induction files with
  | nil => rfl
  | cons file rest ih =>
    obtain ⟨first, held⟩ := file
    by_cases hfile : first = name
    · have hkey : (key == name) = false := by simpa using h
      simpa [List.lookup_cons, hfile, hkey] using ih
    · simp [List.lookup_cons, hfile, ih]

theorem isFile_insert (h : place.path ≠ name) :
    (f.insert name content).isFile place = f.isFile place := by
  have hkey : (place.path == name) = false := by simpa using h
  simp only [isFile, insert, List.lookup_cons, hkey, lookup_filter_of_ne h]

theorem isDirectory_insert (h : f.isDirectory place = true) :
    (f.insert name content).isDirectory place = true := by
  have hfiles (front : String) (h : f.files.any (·.1.startsWith front) = true) :
      (f.insert name content).files.any (·.1.startsWith front) = true := by
    obtain ⟨file, hmem, hfront⟩ := List.any_eq_true.mp h
    refine List.any_eq_true.mpr ?_
    by_cases hname : file.1 = name
    · exact ⟨(name, content), List.mem_cons_self, by simpa [hname] using hfront⟩
    · exact ⟨file, by simp [insert, hmem, hname], hfront⟩
  simp only [isDirectory, Bool.or_eq_true] at h ⊢
  rcases h with (h | h) | h
  · exact .inl (.inl h)
  · exact .inl (.inr (hfiles _ h))
  · exact .inr h

theorem read?_of_write? (h : f.write? path content = some (name, g)) :
    g.read? path = some content := by
  obtain ⟨target, hlocate, htarget, rfl, rfl⟩ := write?_eq_some_iff.mp h
  obtain ⟨hpath, hshort, hfound⟩ := locate_eq_ok_iff.mp hlocate
  obtain ⟨-, hplain⟩ := foldlM_follow_of_agree (fun _ _ hfile hdirectory => ⟨hfile, hdirectory⟩)
    (Place.isPlain_names path) (Place.isPlain_start path) hfound
  -- The places on the way are directories and the target is none, so it is not on the way.
  have hagree (q : Place) (hq : q.IsPlain) (hfile : f.isFile q = false)
      (hdirectory : f.isDirectory q = true) :
      (f.insert target.path content).isFile q = false ∧
        (f.insert target.path content).isDirectory q = true := by
    have hne : q.path ≠ target.path := by
      intro heq
      rw [isDirectory_eq_of_path_eq hq hplain heq, htarget] at hdirectory
      contradiction
    exact ⟨(isFile_insert hne).trans hfile, isDirectory_insert hdirectory⟩
  obtain ⟨hfound', -⟩ := foldlM_follow_of_agree hagree (Place.isPlain_names path)
    (Place.isPlain_start path) hfound
  rw [read?, locate_eq_ok_iff.mpr ⟨hpath, hshort, hfound'⟩]
  exact List.lookup_cons_self

end Folder

end Bitplane
