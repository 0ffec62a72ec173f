import Treewalk.Proofs.Run.Marked
import Treewalk.Proofs.Run.Through
import Treewalk.Proofs.Syntax.Pieces

/-! # Texts fed in two pieces

A session to which a text is fed in two pieces ends like one to which it is fed whole, if the first
piece reads without a fault, ends with a semicolon and runs through.

* The pieces are read as they are on their own (`parse_append`), but for the places of the tokens of
  the second.
* What follows statements that run through is run just then (`gives_append_iff`), and the places of
  tokens do not matter to it (`Gives.alike`). -/

namespace Treewalk

variable {μ : Type}

/-- Where the tokens of a program stand does not matter to what they are. -/
theorem map_blank_shift (k : Nat) (p : Program Token) :
    (p.map (Token.shift k)).map Token.blank = p.map Token.blank :=
  p.map_map _ _

/-- Nor does it matter to what they show. -/
theorem map_literal_shift (k : Nat) (p : Program Token) :
    (p.map (Token.shift k)).map Token.literal = p.map Token.literal :=
  p.map_map _ _

/-- What a text in two pieces reads as, without its tokens. -/
theorem map_literal_parse_append {s₁ s₂ : String} (hclean : (parse s₁).errors = [])
    (hlast : ∀ t, (tokens s₁).getLast? = some t → t.kind = .semicolon) :
    (parse (s₁ ++ s₂)).program.map Token.literal =
      (parse s₁).program.map Token.literal ++ (parse s₂).program.map Token.literal := by
  rw [parse_append hclean hlast, ← map_literal_shift s₁.utf8ByteSize (parse s₂).program]
  exact List.map_append

namespace Run

variable {n : Nat} {p : Program μ} {frame : Nat} {s t : Store μ} {r : Option (Value μ)}

/-- A program that runs through gives its result as it is. -/
theorem gives_of_evalProgram [Mark μ] (h : evalProgram n p frame s = some (r, t))
    (hr : r.any Value.isControl = false) : Gives p frame s r t := by
  refine ⟨n, evaluate_eq_some_iff.2 ⟨r, h, ?_⟩⟩
  cases r with
  | none => rfl
  | some v =>
      cases v with
      | returned v => cases hr
      | _ => rfl

/-- What follows a program that runs through gives what both give together. -/
theorem gives_append_of_evalProgram [Mark μ] {q : Program μ} {r₁ : Option (Value μ)}
    (h : evalProgram n p frame s = some (r₁, t)) (hr₁ : r₁.any Value.isControl = false)
    (hq : q ≠ []) (r : Option (Value μ)) (s' : Store μ) :
    Gives (p ++ q) frame s r s' ↔ Gives q frame t r s' :=
  gives_append_iff ((runsThrough_iff none rfl).2 ⟨r₁, h, hr₁⟩) hq

/-- Programs that differ in places only give what differs in places only. -/
theorem Gives.alike {p p' : Program Token} {s t : Store Token} {r : Option (Value Token)}
    (h : Gives p frame s r t) (hp : p.map Token.blank = p'.map Token.blank) :
    ∃ r' t', Gives p' frame s r' t' ∧ AlikeButPlaces (r, t) (r', t') := by
  obtain ⟨n, h⟩ := h
  have hrel := evaluate_alike hp (rfl : s.blank = s.blank) n frame
  rw [h] at hrel
  generalize hrun : evaluate n p' frame s = y at hrel
  cases hrel with
  | @some _ y halike => exact ⟨y.1, y.2, ⟨n, hrun⟩, halike⟩

/-- **Feeding a session in pieces is feeding it whole.**  Let a text read without a fault, and let its
last token be a semicolon, if it has any.

* The text with any other one behind it reads as its own statements and then those of the other, with
  the faults of the other, both further on by its length.
* If nothing stops a run of its program, then the program of both, run in the same place, gives what
  the other program gives after it, further on by its length: the same result, and the same store
  with all that was printed and all bindings.
* The other program where it stands gives the same but for the places of tokens inside functions,
  and just the same if the programs are taken without places. -/
theorem pieces_run_whole {s₁ s₂ : String} (hclean : (parse s₁).errors = [])
    (hlast : ∀ t, (tokens s₁).getLast? = some t → t.kind = .semicolon) :
    ((parse (s₁ ++ s₂)).program =
        (parse s₁).program ++ (parse s₂).program.map (Token.shift s₁.utf8ByteSize) ∧
      (parse (s₁ ++ s₂)).errors = (parse s₂).errors.map (SyntaxError.shift s₁.utf8ByteSize)) ∧
    (∀ n frame s r₁ t, evalProgram n (parse s₁).program frame s = some (r₁, t) →
      r₁.any Value.isControl = false → (parse s₂).program ≠ [] →
      Gives (parse s₁).program frame s r₁ t ∧
        (∀ r s', Gives (parse (s₁ ++ s₂)).program frame s r s' ↔
          Gives ((parse s₂).program.map (Token.shift s₁.utf8ByteSize)) frame t r s') ∧
        (∀ r s', Gives (parse (s₁ ++ s₂)).program frame s r s' →
          ∃ r' t', Gives (parse s₂).program frame t r' t' ∧ AlikeButPlaces (r, s') (r', t')) ∧
        ∀ r' t', Gives (parse s₂).program frame t r' t' →
          ∃ r s', Gives (parse (s₁ ++ s₂)).program frame s r s' ∧
            AlikeButPlaces (r', t') (r, s')) ∧
    ∀ n frame s r₁ t,
      evalProgram n ((parse s₁).program.map Token.literal) frame s = some (r₁, t) →
      r₁.any Value.isControl = false → (parse s₂).program ≠ [] →
      Gives ((parse s₁).program.map Token.literal) frame s r₁ t ∧
        ∀ r s', Gives ((parse (s₁ ++ s₂)).program.map Token.literal) frame s r s' ↔
          Gives ((parse s₂).program.map Token.literal) frame t r s' := by
  have happend : parse (s₁ ++ s₂) = _ := parse_append hclean hlast
  refine ⟨?_, fun n frame s r₁ t hrun hr₁ hne => ?_, fun n frame s r₁ t hrun hr₁ hne => ?_⟩
  · rw [happend]
    exact ⟨rfl, rfl⟩
  · rw [happend]
    have hshifted : (parse s₂).program.map (Token.shift s₁.utf8ByteSize) ≠ [] :=
      fun hnil => hne (List.map_eq_nil_iff.1 hnil)
    have hgives := gives_append_of_evalProgram hrun hr₁ hshifted
    have hblank := map_blank_shift s₁.utf8ByteSize (parse s₂).program
    refine ⟨gives_of_evalProgram hrun hr₁, hgives, fun r s' h => ?_, fun r' t' h => ?_⟩
    · exact ((hgives r s').1 h).alike hblank
    · obtain ⟨r, s', hshift, halike⟩ := h.alike hblank.symm
      exact ⟨r, s', (hgives r s').2 hshift, halike⟩
  · have hne' : (parse s₂).program.map Token.literal ≠ [] :=
      fun hnil => hne (List.map_eq_nil_iff.1 hnil)
    rw [map_literal_parse_append hclean hlast]
    exact ⟨gives_of_evalProgram hrun hr₁, gives_append_of_evalProgram hrun hr₁ hne'⟩

/-- The pieces `let a = 1; puts(a);` and `a let`, of which the second has a fault.  The first prints
`1` and binds `a`, and the second gives `1`. -/
theorem pieces_run_whole_fault :
    (parse ("let a = 1; puts(a);" ++ "a let")).errors =
        (parse "a let").errors.map (SyntaxError.shift 19) ∧
      ∃ r₁ t, Gives (parse "let a = 1; puts(a);").program 0 Session.start.store r₁ t ∧
        printedText t.events.reverse = "1\n" ∧ (t.local? 0 "a").map Value.inspect = some "1" ∧
        (∀ r s',
          Gives (parse ("let a = 1; puts(a);" ++ "a let")).program 0 Session.start.store r s' ↔
            Gives ((parse "a let").program.map (Token.shift 19)) 0 t r s') ∧
        ∃ r s',
          Gives (parse ("let a = 1; puts(a);" ++ "a let")).program 0 Session.start.store r s' ∧
          r.map Value.inspect = some "1" ∧ printedText s'.events.reverse = "1\n" := by
  have hends : (evalProgram 9 (parse "let a = 1; puts(a);").program 0 Session.start.store).map
      (fun x => (x.1.any Value.isControl, printedText x.2.events.reverse,
        (x.2.local? 0 "a").map Value.inspect)) = some (false, "1\n", some "1") := by
    decide +kernel
  obtain ⟨⟨r₁, t⟩, hrun, hseen⟩ := Option.map_eq_some_iff.1 hends
  obtain ⟨hr₁, hprinted, ha⟩ : r₁.any Value.isControl = false ∧
      printedText t.events.reverse = "1\n" ∧ (t.local? 0 "a").map Value.inspect = some "1" := by
    simpa using hseen
  have hwhole : (evaluate 9 (parse ("let a = 1; puts(a);" ++ "a let")).program 0
      Session.start.store).map (fun x => (x.1.map Value.inspect, printedText x.2.events.reverse)) =
        some (some "1", "1\n") := by
    decide +kernel
  obtain ⟨⟨r, s'⟩, hrun', hseen'⟩ := Option.map_eq_some_iff.1 hwhole
  obtain ⟨hr, hprinted'⟩ := Prod.mk.inj hseen'
  have hlast : ∀ t ∈ (tokens "let a = 1; puts(a);").getLast?, t.kind = .semicolon := by
    decide +kernel
  obtain ⟨⟨-, herrors⟩, heval, -⟩ := @pieces_run_whole _ "a let" (by decide +kernel) hlast
  obtain ⟨hgives, hiff, -⟩ :=
    heval 9 0 _ r₁ t hrun hr₁ (List.ne_nil_of_length_pos (by decide +kernel))
  exact ⟨herrors, r₁, t, hgives, hprinted, ha, hiff, r, s', ⟨9, hrun'⟩, hr, hprinted'⟩

end Run

end Treewalk
