import Treewalk.Proofs.Run.Through
import Treewalk.Proofs.Syntax.Soundness
import Treewalk.Session

/-! # The names of a session

However many texts a session reads, a frame binds only names that a text can spell: runs of letters
and underscores.

* The names of a text are such runs, with or without syntax errors (`named_parse`).
* A run binds no other names than those of its program, and of functions in the store.  So all names
  are runs in a store that texts lead to (`ReachedByTexts.isWord`). -/

namespace Treewalk

/-- The names of a text are runs of letters and underscores, whatever its syntax errors. -/
theorem named_parse (source : String) :
    Named Token.IsWord (Stmt.allLeaves (parse source).program) := by
  intro name hname
  obtain ⟨s, hs, hleaf⟩ := Stmt.mem_allLeaves.1 hname
  exact names_parse (fun t ht => (legible_of_mem_tokens ht).ident) hs hleaf

namespace Run

variable {s : Store Token} {frame : Nat}

/-- A store that running program texts one after the other leads to, each in any frame and whether or
not it has syntax errors.  What happened before may be forgotten in between. -/
inductive ReachedByTexts : Store Token → Prop
  | start : ReachedByTexts Session.start.store
  | run {s s' : Store Token} {source : String} {n frame : Nat} {es : List (Event Token)}
      {r : Option (Value Token)} :
      ReachedByTexts s →
      evalProgram n (parse source).program frame { s with events := es } = some (r, s') →
      ReachedByTexts s'

/-- A session that reads a text stays among them. -/
theorem ReachedByTexts.feed {s s' : Session Token} {source : String} {anyway : Bool}
    {step : Session.Step Token}
    (hs : ReachedByTexts s.store) (h : s.feed source anyway = some (step, s')) :
    ReachedByTexts s'.store := by
  rcases (Session.feed_cases h).2 with rfl | ⟨_, hrun⟩
  · exact hs
  · exact .run hs hrun

theorem ReachedByTexts.speaks (h : ReachedByTexts s) : s.Speaks Token.IsWord := by
  induction h with
  | start =>
      intro i name v hv
      change (Store.empty.newFrame none).2.local? i name = some v at hv
      rw [Store.local?_newFrame] at hv
      simp [Store.local?, Store.empty] at hv
  | @run s _ _ _ _ es _ _ hrun ih =>
      have hs : Store.Speaks Token.IsWord { s with events := es } := ih
      exact speaks_evalProgram (named_parse _) hs hrun

/-- A name that has a value is a run of letters and underscores. -/
theorem ReachedByTexts.isWord (h : ReachedByTexts s) {name : String}
    (hname : (s.lookup frame name).isSome = true) : Token.IsWord name := by
  obtain ⟨v, hv⟩ := Option.isSome_iff_exists.1 hname
  obtain ⟨i, -, hi⟩ := List.exists_of_findSome?_eq_some hv
  exact (h.speaks i name v hi).1

end Run

end Treewalk
