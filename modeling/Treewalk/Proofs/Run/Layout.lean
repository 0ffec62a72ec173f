import Mathlib.Data.List.Forall2
import Treewalk.Proofs.Run.Marked
import Treewalk.Proofs.Syntax.Copied
import Treewalk.Proofs.Syntax.Noted

/-! # Layout

Two texts whose tokens have the same kinds and literals read alike and run alike, whatever layout
stands between the tokens (`layout_irrelevant`).

* `Copy.onto s s'` puts each token of the text `s` where the token at the same index of `s'` stands.  A
  text has no token twice, so the index of a token is one only.
* What a text reads as, with its tokens put so, is what the other one reads as (`parse_onto`).
* The two programs differ in places only, and so does what they do (`Run.evaluate_alike`,
  `Session.run_alike`). -/

namespace Treewalk

theorem Token.eq_of_face {t u : Token} (hface : t.face = u.face) (hspan : t.span = u.span) :
    t = u := by
  obtain ⟨kind, literal, span⟩ := t
  obtain ⟨rfl, rfl⟩ := Prod.mk.inj hface
  rw [show span = u.span from hspan]

namespace Cursor

open Token Reading Grammar

variable {s s' : String}

/-- No two tokens of a text start at one byte. -/
theorem nodup_ahead (s : String) : (startCursor s).ahead.Nodup := by
  refine (pairwise_ahead s).imp fun hlt heq => ?_
  rw [heq] at hlt
  omega

theorem faces_ahead (h : (tokens s).map face = (tokens s').map face) :
    (startCursor s).ahead.map face = (startCursor s').ahead.map face := by
  show (tokens s ++ [endToken s]).map face = (tokens s' ++ [endToken s']).map face
  rw [List.map_append, List.map_append, h]
  rfl

/-- The tokens of a text, each where the token at the same index of another text stands. -/
def Copy.onto (s s' : String) : Copy where
  span t := ((startCursor s').ahead[(startCursor s).ahead.idxOf t]?.getD t).span
  sequel := []
  finish := endToken s'

/-- The copies of the tokens of a text are the tokens of the other text. -/
theorem map_onto (h : (tokens s).map face = (tokens s').map face) :
    (startCursor s).ahead.map (Copy.onto s s').token = (startCursor s').ahead := by
  have hfaces := faces_ahead h
  have hlength : (startCursor s).ahead.length = (startCursor s').ahead.length := by
    simpa using congrArg List.length hfaces
  refine List.ext_getElem (by rw [List.length_map, hlength]) fun i hi hi' => ?_
  rw [List.length_map] at hi
  rw [List.getElem_map]
  refine eq_of_face ?_ ?_
  · show face (startCursor s).ahead[i] = face (startCursor s').ahead[i]
    have hget := List.getElem_of_eq hfaces (by simpa using hi)
    simpa using hget
  · show ((startCursor s').ahead[(startCursor s).ahead.idxOf (startCursor s).ahead[i]]?.getD
      (startCursor s).ahead[i]).span = (startCursor s').ahead[i].span
    rw [(nodup_ahead s).idxOf_getElem, List.getElem?_eq_getElem hi', Option.getD_some]

theorem place_onto (h : (tokens s).map face = (tokens s').map face) :
    (Copy.onto s s').place (startCursor s) = startCursor s' ∧
      (Copy.onto s s').token (endToken s) = endToken s' := by
  have hmap := map_onto h
  rw [ahead, ahead, List.map_append] at hmap
  obtain ⟨htokens, hend⟩ := List.append_inj' hmap rfl
  refine ⟨?_, List.singleton_inj.1 hend⟩
  rw [Copy.place, htokens]
  simp [Copy.onto, startCursor]

/-- What a text reads as, with its tokens put where those of the other text stand, is what the other
text reads as. -/
theorem parse_onto (h : (tokens s).map face = (tokens s').map face) :
    parse s' = ⟨(parse s).program.map (Copy.onto s s').token,
      (parse s).errors.map (SyntaxError.map (Copy.onto s s').token)⟩ := by
  have hlength : (tokens s).length = (tokens s').length := by
    simpa using congrArg List.length h
  obtain ⟨p, c, hrun, htook, hparse⟩ := exists_run s
  obtain ⟨hplace, hend⟩ := place_onto h
  have hunseen : (Copy.onto s s').Unseen c := by
    refine .inl ⟨rfl, ?_⟩
    rw [htook.finish]
    exact hend.symm
  have hrun' := (copies_program (copies_expression (Nat.le_refl _)) (Nat.le_refl _)).repeats hrun
    hunseen
  rw [hplace, hlength] at hrun'
  rw [hparse, parse_of_program hrun']
  exact congrArg (Parsed.mk _) List.map_reverse.symm

end Cursor

namespace SyntaxError

@[simp] theorem token_map (f : Token → Token) (e : SyntaxError) : (e.map f).token = f e.token := by
  cases e <;> rfl

/-- A message tells nothing of the place. -/
@[simp] theorem message_map (w : Cursor.Copy) (e : SyntaxError) :
    (e.map w.token).message = e.message := by
  cases e <;> rfl

/-- Faults of two texts with one message, at the tokens of one index.  The end of a text counts as its
last token. -/
def Matches (s s' : String) (e e' : SyntaxError) : Prop :=
  e.message = e'.message ∧
    ∃ i : Nat, (tokens s ++ [endToken s])[i]? = some e.token ∧
      (tokens s' ++ [endToken s'])[i]? = some e'.token

end SyntaxError

open Token Cursor

variable {s s' : String}

theorem matches_onto (h : (tokens s).map face = (tokens s').map face) {e : SyntaxError}
    (he : e ∈ (parse s).errors) : e.Matches s s' (e.map (Copy.onto s s').token) := by
  have hmem : e.token ∈ (startCursor s).ahead := token_mem_of_mem_errors he
  refine ⟨(SyntaxError.message_map _ e).symm, (startCursor s).ahead.idxOf e.token, ?_, ?_⟩
  · exact List.getElem?_idxOf hmem
  · show (startCursor s').ahead[(startCursor s).ahead.idxOf e.token]? = _
    rw [← map_onto h, List.getElem?_map, List.getElem?_idxOf hmem, SyntaxError.token_map]
    rfl

/-- The programs of the two texts differ in their spans only. -/
theorem map_face_parse (h : (tokens s).map face = (tokens s').map face) :
    (parse s).program.map face = (parse s').program.map face := by
  rw [parse_onto h]
  show _ = ((parse s).program.map (Copy.onto s s').token).map face
  rw [Program.map_map]
  rfl

/-- Programs that differ in their spans only are the same without places. -/
theorem map_blank_of_face {p q : Program Token} (h : p.map face = q.map face) :
    p.map Token.blank = q.map Token.blank := by
  have hblank := congrArg (Program.map fun x => Token.bare x.1 x.2) h
  rwa [Program.map_map, Program.map_map] at hblank

/-- What sessions made of two texts, but for places.  The faults show at tokens of the same index. -/
structure Session.StepsAlike (s s' : String) (x x' : Session.Step Token × Session Token) :
    Prop where
  errors : List.Forall₂ (SyntaxError.Matches s s') x.1.errors x'.1.errors
  outcome : x.1.outcome.map Outcome.blank = x'.1.outcome.map Outcome.blank
  session : x.2.blank = x'.2.blank

/-- A session runs the program of a text, or leaves it at the errors. -/
theorem Session.feed_eq (session : Session Token) (source : String) (anyway : Bool) :
    session.feed source anyway =
      if (parse source).errors.isEmpty || anyway then
        (session.run (parse source).program).map fun x => (⟨(parse source).errors, some x.1⟩, x.2)
      else some (⟨(parse source).errors, none⟩, session) := by
  unfold Session.feed
  dsimp only
  generalize parse source = parsed
  cases parsed.errors.isEmpty || anyway with
  | true =>
      change (session.run parsed.program).bind _ = (session.run parsed.program).map _
      cases session.run parsed.program <;> rfl
  | false => rfl

/-- **Layout does not matter.**  Let the tokens of two texts have the same kinds and literals.

* Their programs differ in their spans only, and their faults have the same messages and show at the
  tokens of the same index.
* Run in one and the same store, or in stores that differ in places only, their programs end for the
  same counts, with results and stores that differ in places only.  They are shown in the same way,
  and the same is printed and bound.
* A session that is fed either of them comes to an outcome and goes on from a state that differ in
  places only. -/
theorem layout_irrelevant (h : (tokens s).map face = (tokens s').map face) :
    ((parse s).program.map face = (parse s').program.map face ∧
      List.Forall₂ (SyntaxError.Matches s s') (parse s).errors (parse s').errors) ∧
    (∀ n frame (t t' : Store Token), t.blank = t'.blank →
      Option.Rel Run.AlikeButPlaces (Run.evaluate n (parse s).program frame t)
        (Run.evaluate n (parse s').program frame t')) ∧
    ∀ (session session' : Session Token) (anyway : Bool), session.blank = session'.blank →
      Option.Rel (Session.StepsAlike s s') (session.feed s anyway) (session'.feed s' anyway) := by
  have hprogram := map_face_parse h
  have hblank := map_blank_of_face hprogram
  have herrors : (parse s').errors =
      (parse s).errors.map (SyntaxError.map (Copy.onto s s').token) := by
    rw [parse_onto h]
  have hmatches : List.Forall₂ (SyntaxError.Matches s s') (parse s).errors (parse s').errors := by
    rw [herrors, List.forall₂_map_right_iff, List.forall₂_same]
    exact fun e he => matches_onto h he
  refine ⟨⟨hprogram, hmatches⟩, fun n frame t t' ht => Run.evaluate_alike hblank ht n frame,
    fun session session' anyway hsession => ?_⟩
  have hempty : (parse s').errors.isEmpty = (parse s).errors.isEmpty := by
    rw [herrors, List.isEmpty_map]
  rw [Session.feed_eq, Session.feed_eq, hempty]
  cases (parse s).errors.isEmpty || anyway with
  | false => exact .some ⟨hmatches, rfl, hsession⟩
  | true =>
      have hrel := Session.run_alike hblank hsession
      generalize session.run (parse s).program = x at hrel ⊢
      generalize session'.run (parse s').program = x' at hrel ⊢
      cases hrel with
      | none => exact .none
      | some hxx => exact .some ⟨hmatches, congrArg some hxx.1, hxx.2⟩

/-- The places of the parameters of a function. -/
def Value.parameterPlaces : Value Token → List Span
  | .function _ ps _ _ => ps.map fun p => p.mark.span
  | _ => []

/-- A function in two layouts, and a closing bracket that nothing opened.  The functions are shown in
the same way, though the parameter stands at another place. -/
theorem layout_irrelevant_function :
    ((tokens "let f = fn(a) \x7b a \x7d; f )").map face =
        (tokens "let\tf=fn(a)\x7ba\x7d;f\n)").map face ∧
      (parse "let f = fn(a) \x7b a \x7d; f )").errors.length = 1) ∧
      List.Forall₂ (SyntaxError.Matches "let f = fn(a) \x7b a \x7d; f )" "let\tf=fn(a)\x7ba\x7d;f\n)")
        (parse "let f = fn(a) \x7b a \x7d; f )").errors
        (parse "let\tf=fn(a)\x7ba\x7d;f\n)").errors ∧
      ∃ v t v' t',
        Run.evaluate 3 (parse "let f = fn(a) \x7b a \x7d; f )").program 0 Session.start.store =
          some (some v, t) ∧
        Run.evaluate 3 (parse "let\tf=fn(a)\x7ba\x7d;f\n)").program 0 Session.start.store =
          some (some v', t') ∧
        v.parameterPlaces = [⟨11, 12⟩] ∧ v'.parameterPlaces = [⟨9, 10⟩] ∧
        v.blank = v'.blank ∧ v.inspect = v'.inspect ∧ t.blank = t'.blank := by
  have hfaces : (tokens "let f = fn(a) \x7b a \x7d; f )").map face =
      (tokens "let\tf=fn(a)\x7ba\x7d;f\n)").map face := by
    decide +kernel
  obtain ⟨⟨-, herrors⟩, heval, -⟩ := layout_irrelevant hfaces
  have hrel := heval 3 0 Session.start.store Session.start.store rfl
  have hplaces : (Run.evaluate 3 (parse "let f = fn(a) \x7b a \x7d; f )").program 0
      Session.start.store).map (fun x => x.1.map Value.parameterPlaces) =
        some (some [⟨11, 12⟩]) := by
    decide +kernel
  have hplaces' : (Run.evaluate 3 (parse "let\tf=fn(a)\x7ba\x7d;f\n)").program 0
      Session.start.store).map (fun x => x.1.map Value.parameterPlaces) =
        some (some [⟨9, 10⟩]) := by
    decide +kernel
  refine ⟨⟨hfaces, by decide +kernel⟩, herrors, ?_⟩
  obtain ⟨⟨r, t⟩, hrun, hr⟩ := Option.map_eq_some_iff.1 hplaces
  obtain ⟨⟨r', t'⟩, hrun', hr'⟩ := Option.map_eq_some_iff.1 hplaces'
  obtain ⟨v, rfl, hv⟩ := Option.map_eq_some_iff.1 hr
  obtain ⟨v', rfl, hv'⟩ := Option.map_eq_some_iff.1 hr'
  rw [hrun, hrun'] at hrel
  cases hrel with
  | some halike =>
      exact ⟨v, t, v', t', hrun, hrun', hv, hv', Option.some.inj halike.result,
        Option.some.inj halike.shown, halike.store⟩

end Treewalk
