import Treewalk.Proofs.Run.Alongside
import Treewalk.Proofs.Run.Path
import Treewalk.Proofs.Token.Written
import Treewalk.Session

/-! # Runs under other marks

A run hands the marks of its program on, inside functions, but goes by nothing of them except their
words.

* Put other marks with the same words into a program and into the store in which it is run.  Then the
  run ends just when it did, with the same result and the same store, these marks put into both
  (`evaluate_relabel`).  The two runs go side by side through every rule (`mirrors_relabel`).
* The tokens of a text without their places are such marks (`Token.blank`).  So what two programs do
  that differ in places only, in stores that do, differs in places only (`Run.evaluate_alike`,
  `Session.run_alike`): it is shown in the same way, and the same is printed and bound. -/

namespace Treewalk

variable {μ ν : Type} [Mark μ] [Mark ν]

/-- Other marks with the same words.  All numbers stay as they are. -/
def Relabelling.ofMarks (f : μ → ν) (hf : ∀ m, Mark.word (f m) = Mark.word m) :
    Relabelling μ ν where
  frame i := i
  identity i := i
  mark := f
  injective _ _ h := h
  word_mark := hf

/-- The same frame with other labels. -/
def Frame.relabel (ρ : Relabelling μ ν) (f : Frame μ) : Frame ν where
  outer := f.outer.map ρ.frame
  bindings := f.bindings.map fun b => (b.1, b.2.relabel ρ)

/-- The same store with other labels.  Its frames stand in the same order. -/
def Store.relabel (ρ : Relabelling μ ν) (s : Store μ) : Store ν where
  frames := s.frames.map (Frame.relabel ρ)
  nextIdentity := ρ.identity s.nextIdentity
  events := s.events.map (Event.relabel ρ)

/-- The printed text does not depend on labels. -/
theorem Event.line?_relabel (ρ : Relabelling μ ν) (e : Event μ) :
    (e.relabel ρ).line? = e.line? := by
  cases e <;> rfl

theorem printedText_relabel (ρ : Relabelling μ ν) (events : List (Event μ)) :
    printedText (events.map (Event.relabel ρ)) = printedText events := by
  have hline : Event.line? ∘ Event.relabel ρ = Event.line? := funext (Event.line?_relabel ρ)
  rw [printedText, printedText, List.filterMap_map, hline]

namespace Store

/-! ### Names -/

section

variable (f : μ → ν) (hf : ∀ m, Mark.word (f m) = Mark.word m) (s : Store μ) (frame : Nat)

theorem outer?_relabel : (s.relabel (.ofMarks f hf)).outer? frame = s.outer? frame := by
  rw [outer?, outer?, relabel, Array.getElem?_map]
  cases s.frames[frame]? with
  | none => rfl
  | some fr => exact Option.map_id'

theorem lookup_map_relabel (ρ : Relabelling μ ν) (name : String) (bs : List (String × Value μ)) :
    (bs.map fun b => (b.1, b.2.relabel ρ)).lookup name =
      (bs.lookup name).map (Value.relabel ρ) := by
  induction bs with
  | nil => rfl
  | cons b bs ih =>
      rw [List.map_cons, List.lookup_cons, List.lookup_cons, ih]
      split <;> rfl

theorem local?_relabel (ρ : Relabelling μ ν) (name : String) :
    (s.relabel ρ).local? frame name = (s.local? frame name).map (Value.relabel ρ) := by
  rw [local?, local?, relabel, Array.getElem?_map]
  cases s.frames[frame]? with
  | none => rfl
  | some fr => exact lookup_map_relabel ρ name fr.bindings

theorem localNames_relabel (ρ : Relabelling μ ν) :
    (s.relabel ρ).localNames frame = s.localNames frame := by
  rw [localNames, localNames, relabel, Array.getElem?_map]
  cases s.frames[frame]? with
  | none => rfl
  | some fr =>
      change ((fr.bindings.map _).map _).eraseDups = _
      rw [List.map_map]
      rfl

theorem path_relabel : (s.relabel (.ofMarks f hf)).path frame = s.path frame := by
  induction frame using Nat.strongRecOn with
  | ind frame ih =>
      by_cases h : ∃ outer, s.outer? frame = some outer ∧ outer < frame
      · obtain ⟨outer, ho, hlt⟩ := h
        rw [path_of_outer ho hlt, path_of_outer ((outer?_relabel f hf s frame).trans ho) hlt,
          ih outer hlt]
      · have hout : ∀ outer, s.outer? frame = some outer → ¬ outer < frame :=
          fun outer ho hlt => h ⟨outer, ho, hlt⟩
        rw [path_of_outermost hout, path_of_outermost]
        rwa [outer?_relabel]

/-- A name has the same value, under the other marks. -/
theorem lookup_relabel (name : String) : (s.relabel (.ofMarks f hf)).lookup frame name =
    (s.lookup frame name).map (Value.relabel (.ofMarks f hf)) := by
  rw [lookup, lookup, path_relabel, List.map_findSome?]
  exact congrArg (fun g => (s.path frame).findSome? g)
    (funext fun i => local?_relabel s i (.ofMarks f hf) name)

/-- The same names have a value. -/
theorem names_relabel : (s.relabel (.ofMarks f hf)).names frame = s.names frame := by
  have hlocal : (s.relabel (.ofMarks f hf)).localNames = s.localNames :=
    funext fun i => localNames_relabel s i _
  rw [names, names, path_relabel, hlocal]

end

end Store

namespace Run

variable (f : μ → ν) (hf : ∀ m, Mark.word (f m) = Mark.word m)

open Relabelling

/-- Every step of a run keeps the second store the first one under other marks. -/
theorem mirrors_relabel :
    Mirrors (ofMarks f hf) (fun _ => True) fun s t => t = s.relabel (ofMarks f hf) where
  note e h := by rw [h]; rfl
  newIdentity h := by rw [h]; exact ⟨rfl, rfl⟩
  lookup h _ := by
    rw [h]
    exact ⟨Store.lookup_relabel f hf _ _ _, fun _ _ _ _ => ⟨fun _ _ => trivial, fun _ _ => trivial⟩⟩
  enter outer h := by
    rw [h]
    refine ⟨Array.size_map, ?_⟩
    simp only [Store.newFrame, Store.relabel, Array.map_push]
    rfl
  define {s t frame name v} h _ _ := by
    rw [h]
    refine congrArg (fun frames => Store.mk frames s.nextIdentity _)
      (Array.ext_getElem? fun i => ?_)
    have hframe : (ofMarks f hf).frame frame = frame := rfl
    simp only [Store.relabel, Store.define, Array.getElem?_modify, Array.getElem?_map, hframe]
    split
    · rw [Option.map_map, Option.map_map]
      rfl
    · rfl

/-- A program does under other marks what it does, under these marks. -/
theorem evalProgram_relabel (n : Nat) (p : Program μ) (frame : Nat) (s : Store μ) :
    evalProgram n (p.map f) frame (s.relabel (ofMarks f hf)) =
      (evalProgram n p frame s).map fun x =>
        (x.1.map (Value.relabel (ofMarks f hf)), x.2.relabel (ofMarks f hf)) := by
  have htracks : Tracks False _ _ _ _ _ := tracks_evalProgram (mirrors_relabel f hf)
    (.inl (rfl : n = n)) frame (p := p) fun _ _ => trivial
  rcases htracks (rfl : s.relabel (ofMarks f hf) = s.relabel (ofMarks f hf)) with ⟨⟨⟩, -⟩ | hrel
  change Option.Rel _ _ (evalProgram n (p.map f) frame _) at hrel
  generalize evalProgram n p frame s = x at hrel ⊢
  generalize evalProgram n (p.map f) frame (s.relabel (ofMarks f hf)) = y at hrel ⊢
  cases hrel with
  | none => rfl
  | some hxy => exact congrArg some (Prod.ext hxy.1 hxy.2.2)

theorem settle_relabel (ρ : Relabelling μ ν) (r : Option (Value μ)) :
    settle (r.map (Value.relabel ρ)) = (settle r).map (Value.relabel ρ) := by
  cases r with
  | none => rfl
  | some v => cases v <;> rfl

theorem evaluate_relabel (n : Nat) (p : Program μ) (frame : Nat) (s : Store μ) :
    evaluate n (p.map f) frame (s.relabel (ofMarks f hf)) =
      (evaluate n p frame s).map fun x =>
        (x.1.map (Value.relabel (ofMarks f hf)), x.2.relabel (ofMarks f hf)) := by
  change (evalProgram n (p.map f) frame _).bind _ = ((evalProgram n p frame s).bind _).map _
  rw [evalProgram_relabel]
  cases evalProgram n p frame s with
  | none => rfl
  | some x => exact congrArg (fun r => some (r, _)) (settle_relabel _ x.1)

end Run

/-! ### Tokens without their places -/

/-- The token, wherever it stands. -/
def Token.blank (t : Token) : Token :=
  .bare t.kind t.literal

/-- The tokens are put without their places, and all numbers stay as they are. -/
def Relabelling.blanks : Relabelling Token Token :=
  .ofMarks Token.blank fun _ => rfl

open Relabelling

/-- The value without the places of the tokens in its functions. -/
def Value.blank : Value Token → Value Token :=
  Value.relabel blanks

/-- The event without the places of the tokens in its values. -/
def Event.blank : Event Token → Event Token :=
  Event.relabel blanks

/-- The store without the places of the tokens in it. -/
def Store.blank : Store Token → Store Token :=
  Store.relabel blanks

/-- The outcome without the places of the tokens in it. -/
def Outcome.blank (o : Outcome Token) : Outcome Token where
  value := o.value.map Value.blank
  stopped := o.stopped
  events := o.events.map Event.blank

/-- The session without the places of the tokens in its store. -/
def Session.blank (s : Session Token) : Session Token where
  store := s.store.blank
  frame := s.frame

/-- How a run of a program ended but for places: with which result and store, and so with what is
shown, printed and bound. -/
structure Run.AlikeButPlaces (x x' : Option (Value Token) × Store Token) : Prop where
  result : x.1.map Value.blank = x'.1.map Value.blank
  store : x.2.blank = x'.2.blank
  shown : x.1.map Value.inspect = x'.1.map Value.inspect
  printed : printedText x.2.events.reverse = printedText x'.2.events.reverse
  names (frame : Nat) : x.2.names frame = x'.2.names frame

theorem Run.AlikeButPlaces.of_blank {x x' : Option (Value Token) × Store Token}
    (hresult : x.1.map Value.blank = x'.1.map Value.blank) (hstore : x.2.blank = x'.2.blank) :
    AlikeButPlaces x x' where
  result := hresult
  store := hstore
  shown := by
    have hshown := congrArg (Option.map Value.inspect) hresult
    rw [Option.map_map, Option.map_map] at hshown
    have hinspect : Value.inspect ∘ Value.blank = Value.inspect :=
      funext (Value.inspect_relabel blanks)
    rwa [hinspect] at hshown
  printed := by
    have hevents : x.2.events.map Event.blank = x'.2.events.map Event.blank :=
      congrArg Store.events hstore
    have hprinted := congrArg (fun es => printedText es.reverse) hevents
    simp only [← List.map_reverse] at hprinted
    exact (printedText_relabel blanks _).symm.trans (hprinted.trans (printedText_relabel blanks _))
  names frame := by
    have hnames := congrArg (fun s => Store.names s frame) hstore
    exact (Store.names_relabel _ _ x.2 frame).symm.trans
      (hnames.trans (Store.names_relabel _ _ x'.2 frame))

theorem rel_of_map_eq {α β : Type} {g : α → β} {R : α → α → Prop} {x x' : Option α}
    (h : x.map g = x'.map g) (hR : ∀ a a', g a = g a' → R a a') : Option.Rel R x x' := by
  cases x with
  | none =>
      cases x' with
      | none => exact .none
      | some a' => cases h
  | some a =>
      cases x' with
      | none => cases h
      | some a' => exact .some (hR a a' (Option.some.inj h))

variable {p p' : Program Token} {s s' : Store Token}

/-- **Places do not matter to a run.**  Programs that differ in places only, run in stores that do, end
for the same counts, and alike but for places. -/
theorem Run.evaluate_alike (hp : p.map Token.blank = p'.map Token.blank) (hs : s.blank = s'.blank)
    (n frame : Nat) :
    Option.Rel AlikeButPlaces (evaluate n p frame s) (evaluate n p' frame s') := by
  have hrun : evaluate n (p.map Token.blank) frame s.blank = _ := evaluate_relabel _ _ n p frame s
  have hrun' : evaluate n (p'.map Token.blank) frame s'.blank = _ :=
    evaluate_relabel _ _ n p' frame s'
  rw [hp, hs] at hrun
  refine rel_of_map_eq (hrun.symm.trans hrun') fun x x' hxx => ?_
  exact .of_blank (congrArg Prod.fst hxx) (congrArg Prod.snd hxx)

/-- A session without places does what the session does, without places. -/
theorem Session.run_blank (session : Session Token) (p : Program Token) :
    session.blank.run (p.map Token.blank) =
      (session.run p).map fun x => (x.1.blank, x.2.blank) := by
  obtain ⟨store, frame⟩ := session
  have hrun : Run.evalProgram depth (p.map Token.blank) frame
      (Store.blank { store with events := [] }) = _ :=
    Run.evalProgram_relabel _ _ depth p frame { store with events := [] }
  change (Run.evalProgram depth (p.map Token.blank) frame
      (Store.blank { store with events := [] })).bind _ =
    ((Run.evalProgram depth p frame { store with events := [] }).bind _).map _
  rw [hrun]
  cases Run.evalProgram depth p frame { store with events := [] } with
  | none => rfl
  | some x =>
      obtain ⟨r, t⟩ := x
      have hstopped : stoppedBy (r.map Value.blank) = stoppedBy r := by
        cases r with
        | none => rfl
        | some v => cases v <;> rfl
      have hvalue : Run.settle (r.map Value.blank) = (Run.settle r).map Value.blank :=
        Run.settle_relabel blanks r
      have hevents : (t.events.map Event.blank).reverse = t.events.reverse.map Event.blank :=
        List.map_reverse.symm
      change some (Outcome.mk (Run.settle (r.map Value.blank)) (stoppedBy (r.map Value.blank))
        (t.events.map Event.blank).reverse, Session.mk t.blank frame) = _
      rw [hstopped, hvalue, hevents]
      rfl

/-- Programs that differ in places only lead sessions that do to outcomes that do. -/
theorem Session.run_alike (hp : p.map Token.blank = p'.map Token.blank)
    {session session' : Session Token} (hsession : session.blank = session'.blank) :
    Option.Rel (fun x x' => x.1.blank = x'.1.blank ∧ x.2.blank = x'.2.blank) (session.run p)
      (session'.run p') := by
  have hrun := session.run_blank p
  rw [hp, hsession] at hrun
  refine rel_of_map_eq (hrun.symm.trans (session'.run_blank p')) fun x x' hxx => ?_
  exact ⟨congrArg Prod.fst hxx, congrArg Prod.snd hxx⟩

end Treewalk
