import Bitplane.CommandLine.Load

/-! # Steps that succeed

What a step of a command has to find to succeed, and the session that it leaves.
-/

namespace Bitplane.CommandLine

open Script (openFile)
open SessionM

variable {α β : Type} {m : SessionM α} {k : α → SessionM β} {a a' : α} {b : β} {u : Unit}
  {s s' t : Session} {path : String} {script : Script}

def Session.bytes? (s : Session) (path : String) : Option Bytes :=
  (s.folder.read? path).map Content.toBytes

/-- A step that succeeds gives a value and leaves a session. -/
def Gives (m : SessionM α) (s : Session) (a : α) (s' : Session) : Prop :=
  m.run.run s = (.ok a, s')

theorem gives_pure_iff : Gives (pure a) s a' s' ↔ a = a' ∧ s = s' := by
  constructor
  · intro h
    obtain ⟨ha, hs⟩ := Prod.mk.inj h
    exact ⟨Except.ok.inj ha, hs⟩
  · rintro ⟨rfl, rfl⟩
    rfl

theorem not_gives_throw {failure : Failure} : ¬Gives (throw failure) s a s' :=
  fun h => nomatch (Prod.mk.inj h).1

theorem gives_get_iff : Gives get s t s' ↔ s = t ∧ s = s' := gives_pure_iff (s := s)

theorem gives_set_iff : Gives (set t) s u s' ↔ t = s' := by
  constructor
  · exact fun h => (Prod.mk.inj h).2
  · rintro rfl
    rfl

theorem gives_readBytes?_iff {read? : String → Option Bytes} :
    Gives readBytes? s read? s' ↔ s.bytes? = read? ∧ s = s' := gives_pure_iff (s := s)

theorem gives_say_iff {notices : List Notice} : Gives (say notices) s u s' ↔
    { s with said := notices :: s.said } = s' :=
  gives_set_iff (s := s)

theorem gives_tell_iff {text : String} : Gives (tell text) s u s' ↔
    { s with said := [⟨.info, .commandLine, text⟩] :: s.said } = s' :=
  gives_set_iff (s := s)

theorem gives_bind_iff : Gives (m >>= k) s b s' ↔ ∃ a t, Gives m s a t ∧ Gives (k a) t b s' := by
  unfold Gives
  rw [ExceptT.run_bind, StateT.run_bind]
  constructor
  · intro h
    rcases hm : m.run.run s with ⟨e | a, t⟩
    · rw [hm] at h
      cases h
    · rw [hm] at h
      exact ⟨a, t, rfl, h⟩
  · rintro ⟨a, t, hm, hk⟩
    rw [hm]
    exact hk

theorem gives_orFail_iff {result : Except Fault α} :
    Gives (orFail result) s a s' ↔ result = .ok a ∧ s = s' := by
  cases result with
  | ok b => simp [orFail, gives_pure_iff]
  | error fault => simp [orFail, not_gives_throw]

theorem gives_openScript_iff :
    Gives (openScript path) s script s' ↔ openFile s.bytes? path = .ok script ∧ s = s' := by
  rw [openScript, gives_bind_iff]
  constructor
  · rintro ⟨_, _, hread, hopen⟩
    obtain ⟨rfl, rfl⟩ := gives_readBytes?_iff.mp hread
    cases hfile : openFile s.bytes? path with
    | ok found =>
      rw [hfile] at hopen
      obtain ⟨rfl, rfl⟩ := gives_pure_iff.mp hopen
      exact ⟨rfl, rfl⟩
    | error fault =>
      rw [hfile] at hopen
      exact absurd hopen not_gives_throw
  · rintro ⟨hfile, rfl⟩
    refine ⟨_, _, gives_readBytes?_iff.mpr ⟨rfl, rfl⟩, ?_⟩
    rw [hfile]
    exact gives_pure_iff.mpr ⟨rfl, rfl⟩

theorem gives_write_iff {content : Content} {failure : Failure} :
    Gives (write path content failure) s u s' ↔
      ∃ name folder, s.folder.write? path content = some (name, folder) ∧
        { s with folder := folder, written := (name, content) :: s.written } = s' := by
  rw [write, gives_bind_iff]
  constructor
  · rintro ⟨_, _, hget, hwrite⟩
    obtain ⟨rfl, rfl⟩ := gives_get_iff.mp hget
    cases hfound : s.folder.write? path content with
    | none =>
      rw [hfound] at hwrite
      exact absurd hwrite not_gives_throw
    | some found =>
      rw [hfound] at hwrite
      exact ⟨_, _, rfl, gives_set_iff.mp hwrite⟩
  · rintro ⟨name, folder, hfound, rfl⟩
    refine ⟨_, _, gives_get_iff.mpr ⟨rfl, rfl⟩, ?_⟩
    rw [hfound]
    exact gives_set_iff.mpr rfl

end Bitplane.CommandLine
