import Treewalk.Proofs.Syntax.Runs
import Treewalk.Proofs.Syntax.Seams
import Treewalk.Proofs.Syntax.Worded

/-! # Reading the written form of a program

The statements of a program are written with nothing between them.  So what is written after an
expression may be read as a part of it.

* Two statements are apart if the first is no expression, or the second neither opens arguments or a
  key nor goes on the last word or number of the first (`Stmt.Apart`).
* A program whose statements are apart writes the tokens of all of them (`Program.shown`).  Any other
  writes fewer words and numbers, or goes on reading past the end of an expression.
* So a clean text is read from its written form as the same program just when the statements are
  apart.  Words or numbers that join may still be written again as themselves: `1 2` is written as
  `12`. -/

namespace Treewalk

open Token Grammar Reading Cursor

/-- The second statement, written directly after the first one, is not read as a part of it. -/
def Stmt.Apart (s t : Stmt String) : Prop :=
  s.isExpr = true → ∀ d ∈ t.render.toList.head?, d ≠ '(' ∧ d ≠ '[' ∧
    ∀ c ∈ s.render.toList.getLast?, merges c d = false

-- The test is of the characters at the seam, and never runs over all characters.
instance (s t : Stmt String) : Decidable (s.Apart t) :=
  decidable_of_iff (s.isExpr = true → t.render.toList.head?.all (fun d => d != '(' && d != '[' &&
    s.render.toList.getLast?.all fun c => !merges c d) = true)
    (by simp [Stmt.Apart, Option.all_eq_true, and_assoc])

/-- Any two statements that follow each other are apart. -/
def Program.Apart (p : Program String) : Prop :=
  List.IsChain Stmt.Apart p

instance (p : Program String) : Decidable p.Apart :=
  inferInstanceAs (Decidable (List.IsChain Stmt.Apart p))

/-- The tokens of the written form of a program whose statements are apart. -/
def Program.shown (p : Program String) : List Token :=
  List.flatMap (fun s => s.shown ++ s.closing true) p

/-! ### The first token of a statement -/

theorem pull_of_isRun {k : Kind} (h : k.isRun = true) : pull k = 0 := by
  cases k <;> first | rfl | cases h

/-- The first character of a token tells whether the token can go on an expression. -/
def Tells (d : Char) (k : Kind) : Prop :=
  pull k = 0 ↔ d ≠ '(' ∧ d ≠ '['

instance (d : Char) (k : Kind) : Decidable (Tells d k) :=
  inferInstanceAs (Decidable (pull k = 0 ↔ d ≠ '(' ∧ d ≠ '['))

theorem tells_of_isRun {d : Char} {k : Kind} (hk : k.isRun = true)
    (hd : isWordChar d = true ∨ d.isDigit = true) : Tells d k := by
  refine iff_of_true (pull_of_isRun hk) ⟨?_, ?_⟩ <;> rintro rfl <;> revert hd <;> decide

/-- A written form and its tokens start with a character and a token that it tells of. -/
def Heads (text : String) (ts : List Token) : Prop :=
  ∃ d u, text.toList.head? = some d ∧ ts.head? = some u ∧ Tells d u.kind

theorem heads_of_run {s : String} {u : Token} (hu : u.kind.isRun = true) (hne : s ≠ "")
    (hs : ∀ d ∈ s.toList, isWordChar d = true ∨ d.isDigit = true) : Heads s [u] := by
  cases hcs : s.toList with
  | nil => exact absurd (String.toList_eq_nil_iff.1 hcs) hne
  | cons d ds =>
      rw [hcs] at hs
      exact ⟨d, u, by rw [hcs]; rfl, rfl, tells_of_isRun hu (hs d List.mem_cons_self)⟩

theorem Expr.heads_render (e : Expr String) (hp : ∀ l ∈ e.leaves, l.Readable) :
    Heads e.render e.shown :=
  match e with
  | .name i => by
      rw [Expr.leaves, List.forall_mem_singleton] at hp
      exact heads_of_run isRun_of_ofWord hp.1 fun d hd => .inl (hp.2 d hd)
  | .int _ v => by
      rw [Expr.leaves, List.forall_mem_singleton] at hp
      obtain ⟨hne, hdigits⟩ := (shows_text hp).2.1
      exact heads_of_run rfl hne fun d hd => .inr (hdigits d hd)
  | .string _ s =>
      ⟨'"', .bare .string s, by simp [Expr.render, quoted], rfl, (by decide : Tells '"' .string)⟩
  | .bool _ true => ⟨'t', Kind.token .trueWord, by simp [Expr.render], rfl, by decide⟩
  | .bool _ false => ⟨'f', Kind.token .falseWord, by simp [Expr.render], rfl, by decide⟩
  | .unary _ _ _ => ⟨'(', Kind.token .lparen, by simp [Expr.render], rfl, by decide⟩
  | .binary _ _ _ _ => ⟨'(', Kind.token .lparen, by simp [Expr.render], rfl, by decide⟩
  | .cond _ _ _ none => ⟨'i', Kind.token .ifWord, by simp [Expr.render], rfl, by decide⟩
  | .cond _ _ _ (some _) => ⟨'i', Kind.token .ifWord, by simp [Expr.render], rfl, by decide⟩
  | .func m _ _ => by
      rw [Expr.leaves, List.forall_mem_cons] at hp
      have hm : m = Kind.text .fnWord := hp.1 rfl
      have hf : (Kind.text .fnWord).toList = ['f', 'n'] := by decide
      exact ⟨'f', Kind.token .fnWord, by simp [Expr.render, hm, hf], rfl, by decide⟩
  | .call _ c _ => by
      rw [Expr.leaves, List.forall_mem_append] at hp
      obtain ⟨d, u, hd, hu, htells⟩ := c.heads_render hp.1
      exact ⟨d, u, by simp [Expr.render, hd], by simp [Expr.shown, hu], htells⟩
  | .array _ _ => ⟨'[', Kind.token .lbracket, by simp [Expr.render], rfl, by decide⟩
  | .index _ _ _ => ⟨'(', Kind.token .lparen, by simp [Expr.render], rfl, by decide⟩
  | .table _ _ => ⟨'\x7b', Kind.token .lbrace, by simp [Expr.render], rfl, by decide⟩

theorem Stmt.heads_render (s : Stmt String) (hp : ∀ l ∈ s.leaves, l.Readable) :
    Heads s.render s.shown :=
  match s with
  | .bind m _ _ => by
      rw [Stmt.leaves, List.forall_mem_cons] at hp
      have hm : m = Kind.text .letWord := hp.1 rfl
      have hl : (Kind.text .letWord).toList = ['l', 'e', 't'] := by decide
      exact ⟨'l', Kind.token .letWord, by simp [Stmt.render, hm, hl], rfl, by decide⟩
  | .ret m value => by
      have hm : m = Kind.text .returnWord := by
        cases value <;> exact hp (.word .returnWord m) (by simp [Stmt.leaves]) rfl
      have hr : (Kind.text .returnWord).toList = ['r', 'e', 't', 'u', 'r', 'n'] := by decide
      refine ⟨'r', Kind.token .returnWord, ?_, by cases value <;> rfl, by decide⟩
      cases value <;> simp [Stmt.render, hm, hr]
  | .expr _ e => e.heads_render hp

/-! ### What a program writes -/

/-- The last word or number of the first statement does not go on with the second one. -/
def Stmt.Unmerged (s t : Stmt String) : Prop :=
  ∀ c ∈ s.render.toList.getLast?, ∀ d ∈ t.render.toList.head?, merges c d = false

theorem Stmt.head?_render_ne (s : Stmt String) (hp : ∀ l ∈ s.leaves, l.Readable) :
    s.render.toList.head? ≠ some '=' := by
  cases s with
  | bind m i e =>
      rw [Stmt.leaves, List.forall_mem_cons] at hp
      have hm : m = Kind.text .letWord := hp.1 rfl
      rw [Stmt.render, hm]
      simp only [String.toList_append, List.append_assoc]
      exact head?_append_ne (by decide) (by simp)
  | ret m value =>
      have hm : m = Kind.text .returnWord := by
        cases value <;> exact hp (.word .returnWord m) (by simp [Stmt.leaves]) rfl
      cases value <;>
        · simp only [Stmt.render, hm, String.toList_append, List.append_assoc]
          exact head?_append_ne (by decide) (by simp)
  | expr m e => exact e.head?_render_ne hp

theorem Stmt.written_whole (s : Stmt String) (hp : ∀ l ∈ s.leaves, l.Readable) :
    Written (s.shown ++ s.closing true) s.render.toList := by
  have h : Written (s.shown ++ (s.closing true ++ [])) (s.render.toList ++ []) :=
    s.written_render hp (fun _ c hc => by cases hc) .nil
  rwa [List.append_nil, List.append_nil] at h

theorem Program.shown_cons (s : Stmt String) (p : Program String) :
    Program.shown (s :: p) = s.shown ++ s.closing true ++ Program.shown p :=
  List.flatMap_cons

/-- The written form of a program starts like that of its first statement. -/
theorem Program.head?_render {s : Stmt String} (hp : ∀ l ∈ s.leaves, l.Readable)
    (p : Program String) :
    (Program.render (s :: p)).toList.head? = s.render.toList.head? := by
  obtain ⟨d, -, hd, -⟩ := s.heads_render hp
  rw [Program.toList_render_cons, List.head?_append, hd]
  rfl

/-- A program writes the tokens of all its statements if none goes on the last word or number of the
one before it, and else fewer words and numbers. -/
theorem Program.exists_written {p : Program String} (hp : ∀ s ∈ p, ∀ l ∈ s.leaves, l.Readable) :
    (List.IsChain Stmt.Unmerged p ∧ Written p.shown p.render.toList) ∨
      (¬ List.IsChain Stmt.Unmerged p ∧ ∃ ts, Written ts p.render.toList ∧ runs ts < runs p.shown) := by
  induction p with
  | nil => exact .inl ⟨.nil, .nil⟩
  | cons s p ih =>
      rw [List.forall_mem_cons] at hp
      have hs := s.written_whole hp.1
      have hsign : (Program.render p).toList.head? ≠ some '=' := by
        cases p with
        | nil => simp [Program.render]
        | cons t p =>
            have ht := hp.2 t List.mem_cons_self
            rw [Program.head?_render ht]
            exact t.head?_render_ne ht
      have hseam : (∀ t ∈ p.head?, s.Unmerged t) ↔ ∀ c ∈ s.render.toList.getLast?,
          ∀ d ∈ (Program.render p).toList.head?, merges c d = false := by
        cases p with
        | nil => simp [Program.render]
        | cons t p => simp [Program.head?_render (hp.2 t List.mem_cons_self), Stmt.Unmerged]
      rw [Program.toList_render_cons, Program.shown_cons, List.isChain_cons, hseam]
      rcases ih hp.2 with ⟨hchain, hwritten⟩ | ⟨hchain, ts, hts, hruns⟩
      · rcases exists_written_append hs hwritten hsign with ⟨hm, h⟩ | ⟨hm, h⟩
        · exact .inl ⟨⟨hm, hchain⟩, h⟩
        · exact .inr ⟨fun h => hm h.1, h⟩
      · -- What is lost behind the seam is not made up for at the seam.
        refine .inr ⟨fun h => hchain h.2, ?_⟩
        rw [runs_append]
        rcases exists_written_append hs hts hsign with ⟨-, h⟩ | ⟨-, vs, hvs, hlt⟩
        · exact ⟨_, h, by rw [runs_append]; omega⟩
        · rw [runs_append] at hlt
          exact ⟨vs, hvs, by omega⟩

/-! ### What is read again -/

/-- A segment of a text holds a statement. -/
structure Holds (g : Segment) (s : Stmt String) : Prop where
  same : g.stmt.map unmark = s.map unmark
  faces : g.text.map face = s.shown.map face
  bare : g.ending = [] ↔ s.isExpr = true

/-- The first token of the second statement does not go on with an expression before it. -/
def Stmt.Released (s t : Stmt String) : Prop :=
  s.isExpr = true → ∀ u ∈ t.shown.head?, pull u.kind = 0

theorem closing_eq_nil_iff (s : Stmt String) : s.closing true = [] ↔ s.isExpr = true := by
  cases h : s.isExpr <;> simp [Stmt.closing, h]

theorem Expr.Spelled.free {place : Place} {e : Expr Token} {ts : List Token}
    (h : Expr.Spelled id true place e ts) : Expr.Spelled id true .free e ts := by
  cases h with
  | bare _ hb => exact .bare id hb
  | pair hl he hr => exact .pair hl he hr

/-- Tokens with the faces of a statement's tokens are a segment that holds it. -/
theorem exists_segment {s : Stmt String} (hp : ∀ l ∈ s.leaves, l.Plain) {ts us : List Token}
    (hts : ts.map face = s.shown.map face) (hus : us.map face = (s.closing true).map face) :
    ∃ g : Segment, g.text = ts ∧ g.ending = us ∧ Holds g s := by
  have hends : Ending us := (s.ending_closing true).of_face hus
  have hbare : us = [] ↔ s.isExpr = true := by
    rw [← closing_eq_nil_iff, ← List.map_eq_nil_iff (f := face), hus, List.map_eq_nil_iff]
  cases h : s.isExpr with
  | false =>
      obtain ⟨s', hsame, hspelled⟩ := (s.spelled_shown hp).of_faces hts
      refine ⟨⟨s', ts, us, hspelled, hends, fun hnil => ?_⟩, rfl, rfl, ⟨hsame, hts, hbare⟩⟩
      rw [hbare.1 hnil] at h
      cases h
  | true =>
      cases s with
      | expr m e =>
          obtain ⟨e', hsame, hspelled⟩ := (e.spelled_shown hp .head).of_faces hts
          obtain ⟨t, ts, rfl, -⟩ := hspelled.exists_head
          refine ⟨⟨.expr t e', t :: ts, us, .expr hspelled.free, hends, fun _ => ⟨t, e', rfl, hspelled⟩⟩,
            rfl, rfl, ⟨?_, hts, hbare⟩⟩
          rw [Stmt.map, hsame]
          rfl
      | _ => cases h

/-- Tokens with the faces of a program's tokens are segments that hold its statements. -/
theorem exists_segments {p : Program String} (hp : ∀ s ∈ p, ∀ l ∈ s.leaves, l.Plain)
    {ts : List Token} (hts : ts.map face = p.shown.map face) :
    ∃ gs, tokensOf gs = ts ∧ List.Forall₂ Holds gs p := by
  induction p generalizing ts with
  | nil =>
      have hnil : ts = [] := List.map_eq_nil_iff.1 hts
      exact ⟨[], hnil.symm, .nil⟩
  | cons s p ih =>
      rw [List.forall_mem_cons] at hp
      simp only [Program.shown_cons, List.map_append, List.map_eq_append_iff] at hts
      obtain ⟨_, vs, rfl, ⟨ts, us, rfl, hts, hus⟩, hvs⟩ := hts
      obtain ⟨g, rfl, rfl, hg⟩ := exists_segment hp.1 hts hus
      obtain ⟨gs, rfl, hgs⟩ := ih hp.2 hvs
      exact ⟨g :: gs, rfl, .cons hg hgs⟩

theorem Holds.releases_iff {g h : Segment} {s t : Stmt String} (hg : Holds g s) (hh : Holds h t) :
    g.Releases h ↔ s.Released t := by
  have hheads : h.text.head?.map face = t.shown.head?.map face := by
    rw [← List.head?_map, ← List.head?_map, hh.faces]
  rw [Segment.Releases, Stmt.Released, hg.bare]
  refine imp_congr_right fun _ => ?_
  cases htext : h.text.head? with
  | none =>
      rw [htext, Option.map_none, eq_comm, Option.map_eq_none_iff] at hheads
      simp [hheads]
  | some u =>
      rw [htext, Option.map_some, eq_comm, Option.map_eq_some_iff] at hheads
      obtain ⟨v, hv, hface⟩ := hheads
      have hkind : v.kind = u.kind := (Prod.mk.inj hface).1
      simp [hv, hkind]

theorem isChain_releases_iff {gs : List Segment} {p : List (Stmt String)}
    (h : List.Forall₂ Holds gs p) : gs.IsChain Segment.Releases ↔ p.IsChain Stmt.Released := by
  induction h with
  | nil => exact iff_of_true .nil .nil
  | @cons g s gs p hg hgs ih =>
      cases hgs with
      | nil => exact iff_of_true (.singleton g) (.singleton s)
      | cons hh _ => rw [List.isChain_cons_cons, List.isChain_cons_cons, ih, hg.releases_iff hh]

/-- A statement that is no expression ends in a semicolon. -/
theorem Stmt.getLast?_render {s : Stmt String} (h : s.isExpr = false) :
    s.render.toList.getLast? = some ';' := by
  cases s with
  | bind m i e =>
      rw [Stmt.render, String.toList_append, List.getLast?_append]
      rfl
  | ret m value =>
      cases value <;>
        · rw [Stmt.render, String.toList_append, List.getLast?_append]
          rfl
  | expr m e => cases h

theorem merges_semicolon (d : Char) : merges ';' d = false := by
  have hword : isWordChar ';' = false := by decide
  rw [merges, hword]
  rfl

/-- Two statements are apart when neither the tokens nor the reading goes on across the seam. -/
theorem Stmt.apart_iff {s t : Stmt String} (ht : ∀ l ∈ t.leaves, l.Readable) :
    s.Apart t ↔ s.Unmerged t ∧ s.Released t := by
  obtain ⟨d, u, hd, hu, htells⟩ := t.heads_render ht
  rw [Tells] at htells
  rw [Stmt.Apart, Stmt.Unmerged, Stmt.Released]
  simp only [hd, hu, Option.mem_def, Option.some.injEq, forall_eq', htells]
  cases h : s.isExpr with
  | false => simp [Stmt.getLast?_render h, merges_semicolon]
  | true =>
      simp only [forall_const]
      tauto

theorem Program.apart_iff {p : Program String} (hp : ∀ s ∈ p, ∀ l ∈ s.leaves, l.Readable) :
    p.Apart ↔ List.IsChain Stmt.Unmerged p ∧ List.IsChain Stmt.Released p := by
  induction p with
  | nil => exact iff_of_true .nil ⟨.nil, .nil⟩
  | cons s p ih =>
      rw [List.forall_mem_cons] at hp
      cases p with
      | nil => exact iff_of_true (.singleton s) ⟨.singleton s, .singleton s⟩
      | cons t p =>
          have hih := ih hp.2
          rw [Program.Apart] at hih
          rw [Program.Apart, List.isChain_cons_cons, List.isChain_cons_cons, List.isChain_cons_cons,
            hih, Stmt.apart_iff (hp.2 t List.mem_cons_self)]
          tauto

/-! ### Reading a program again -/

theorem runs_eq_of_faces {ts us : List Token} (h : ts.map face = us.map face) :
    runs ts = runs us := by
  have hface : ∀ ts : List Token, runs ts = (ts.map face).countP fun f => f.1.isRun := by
    intro ts
    rw [List.countP_map]
    rfl
  rw [hface, hface, h]

theorem Program.runs_shown {p : Program String} (hp : ∀ s ∈ p, ∀ l ∈ s.leaves, l.Plain) :
    runs p.shown = Stmt.allRuns (Stmt.mapAll unmark p) := by
  induction p with
  | nil => rfl
  | cons s p ih =>
      rw [List.forall_mem_cons] at hp
      have hs := (s.spelled_shown hp.1).runs_eq
      rw [Stmt.map_map] at hs
      rw [Program.shown_cons, runs_append, runs_append, hs, (s.ending_closing true).runs_eq, ih hp.2]
      rfl

theorem Program.plain_of_namesFree {p : Program String}
    (hp : ∀ s ∈ p, ∀ l ∈ s.leaves, l.Readable) (hfree : ∀ s ∈ p, s.NamesFree) :
    ∀ s ∈ p, ∀ l ∈ s.leaves, l.Plain := by
  intro s hs l hl
  refine Leaf.plain_of_readable (hp s hs l hl) ?_
  rintro w rfl
  exact hfree s hs w hl

/-- Statements that are read from a text that tokens write have no keywords for names. -/
theorem namesFree_of_written {ts : List Token} {source : String} (h : Written ts source.toList)
    {p : Program String} (hsame : (parse source).program.map unmark = p.map unmark) :
    ∀ s ∈ p, s.NamesFree := by
  intro s hs
  have hmem : s.map unmark ∈ (parse source).program.map unmark := by
    rw [hsame]
    exact List.mem_map_of_mem hs
  obtain ⟨s', hs', heq⟩ := List.mem_map.1 hmem
  have hfree := namesFree_of_mem_parse (fun t ht hk => ofWord_of_written h ht hk) hs'
  rw [← Stmt.namesFree_map unmark, heq, Stmt.namesFree_map] at hfree
  exact hfree

theorem map_unmark_of_holds {gs : List Segment} {p : Program String}
    (h : List.Forall₂ Holds gs p) : (gs.map fun g => g.stmt.map unmark) = p.map unmark := by
  induction h with
  | nil => rfl
  | cons hg _ ih =>
      rw [List.map_cons, ih, hg.same]
      rfl

/-- A program whose statements are apart is read again. -/
theorem Program.parse_render {p : Program String} (hp : ∀ s ∈ p, ∀ l ∈ s.leaves, l.Readable)
    (hfree : ∀ s ∈ p, s.NamesFree) (hapart : p.Apart) :
    (parse p.render).errors = [] ∧ (parse p.render).program.map unmark = p.map unmark := by
  have hplain := Program.plain_of_namesFree hp hfree
  obtain ⟨hunmerged, hreleased⟩ := (Program.apart_iff hp).1 hapart
  have hwritten : Written p.shown p.render.toList := by
    rcases Program.exists_written hp with ⟨-, h⟩ | ⟨hnot, -⟩
    · exact h
    · exact absurd hunmerged hnot
  obtain ⟨gs, hgs, hholds⟩ := exists_segments hplain (faces_of_written hwritten 0)
  rw [parse_of_isChain hgs ((isChain_releases_iff hholds).2 hreleased)]
  refine ⟨rfl, ?_⟩
  rw [← map_unmark_of_holds hholds, Program.map, List.map_map]
  rfl

/-- A program that is read again has statements that are apart, and no names that are keywords. -/
theorem Program.apart_of_parse {p : Program String} (hp : ∀ s ∈ p, ∀ l ∈ s.leaves, l.Readable)
    (herrors : (parse p.render).errors = [])
    (hsame : (parse p.render).program.map unmark = p.map unmark) :
    (∀ s ∈ p, s.NamesFree) ∧ p.Apart := by
  have hwords := Program.exists_written hp
  have hfree : ∀ s ∈ p, s.NamesFree := by
    rcases hwords with ⟨-, h⟩ | ⟨-, ts, h, -⟩
    · exact namesFree_of_written h hsame
    · exact namesFree_of_written h hsame
  have hplain := Program.plain_of_namesFree hp hfree
  have hspelled : (parse p.render).program.Spelled id false (tokens p.render) :=
    (@parse_sound p.render (fun _ => True) fun _ _ _ _ => trivial).2 herrors
  have hruns : runs (tokens p.render) = runs p.shown := by
    rw [Program.runs_shown hplain, Stmt.ListSpelled.runs_eq hspelled, Stmt.mapAll_eq,
      Stmt.mapAll_eq]
    exact congrArg Stmt.allRuns hsame
  refine ⟨hfree, (Program.apart_iff hp).2 ?_⟩
  rcases hwords with ⟨hunmerged, hwritten⟩ | ⟨-, ts, hwritten, hlt⟩
  · obtain ⟨gs, hgs, hholds⟩ := exists_segments hplain (faces_of_written hwritten 0)
    have hchain := isChain_of_parse hgs herrors (hsame.trans (map_unmark_of_holds hholds).symm)
    exact ⟨hunmerged, (isChain_releases_iff hholds).1 hchain⟩
  · -- The text has too few words and numbers to be read as the program.
    have hfaces : runs (tokens p.render) = runs ts :=
      runs_eq_of_faces (faces_of_written hwritten 0)
    omega

/-! ### What is read again is written again -/

/-- Programs that were read are written in the same way if they are the same but for the marks. -/
theorem Program.render_eq_of_map_eq {p q : Program String}
    (hp : ∀ s ∈ p, ∀ l ∈ s.leaves, l.Readable) (hq : ∀ s ∈ q, ∀ l ∈ s.leaves, l.Readable)
    (h : p.map unmark = q.map unmark) : p.render = q.render := by
  have hrender : List.map Stmt.render p = List.map Stmt.render q := by
    induction p generalizing q with
    | nil =>
        obtain rfl : q = [] := List.map_eq_nil_iff.1 h.symm
        rfl
    | cons s p ih =>
        cases q with
        | nil => cases h
        | cons t q =>
            rw [List.forall_mem_cons] at hp hq
            obtain ⟨hst, hrest⟩ := List.cons.inj h
            rw [List.map_cons, List.map_cons, Stmt.render_eq_of_map_eq hp.1 hq.1 hst,
              ih hp.2 hq.2 hrest]
  rw [Program.render, Program.render, hrender]

/-- The written form of what a text reads as. -/
def rewrite (source : String) : String :=
  ((parse source).program.map Token.literal).render

theorem readable_of_parse (source : String) :
    ∀ s ∈ (parse source).program.map Token.literal, ∀ l ∈ s.leaves, l.Readable := by
  intro s' hs'
  obtain ⟨s, hs, rfl⟩ := List.mem_map.1 hs'
  exact readable_of_mem_parse hs

theorem Program.map_unmark_literal (p : Program Token) :
    (p.map Token.literal).map unmark = p.map unmark := by
  rw [Program.map, Program.map, List.map_map]
  exact List.map_congr_left fun s _ => s.map_map _ _

/-- The program of a clean text is read from its written form just when its statements are apart. -/
theorem apart_iff_parse_rewrite {source : String} (h : (parse source).errors = []) :
    ((parse (rewrite source)).errors = [] ∧
        (parse (rewrite source)).program.map unmark = (parse source).program.map unmark) ↔
      Program.Apart ((parse source).program.map Token.literal) := by
  have hfree : ∀ s ∈ (parse source).program.map Token.literal, s.NamesFree := by
    intro s' hs'
    obtain ⟨s, hs, rfl⟩ := List.mem_map.1 hs'
    exact (Stmt.namesFree_map _ s).2 (namesFree_of_errors h hs)
  rw [← Program.map_unmark_literal (parse source).program]
  constructor
  · rintro ⟨herrors, hsame⟩
    exact (Program.apart_of_parse (readable_of_parse source) herrors hsame).2
  · exact Program.parse_render (readable_of_parse source) hfree

/-- **Written again as itself.**  The written form of a clean text reads as the same program just when
its statements are apart.  It is clean and is written again as itself just when it is also the written
form of a text whose statements are apart. -/
theorem parse_rewrite_iff {source : String} (h : (parse source).errors = []) :
    (((parse (rewrite source)).errors = [] ∧
          (parse (rewrite source)).program.map unmark = (parse source).program.map unmark) ↔
        Program.Apart ((parse source).program.map Token.literal)) ∧
      (((parse (rewrite source)).errors = [] ∧ rewrite (rewrite source) = rewrite source) ↔
        ∃ other, (parse other).errors = [] ∧
          Program.Apart ((parse other).program.map Token.literal) ∧
            rewrite other = rewrite source) := by
  refine ⟨apart_iff_parse_rewrite h, ?_, ?_⟩
  · rintro ⟨herrors, hsame⟩
    -- The written form itself is such a text.
    refine ⟨rewrite source, herrors, (apart_iff_parse_rewrite herrors).1 ?_, hsame⟩
    rw [hsame]
    exact ⟨herrors, rfl⟩
  · rintro ⟨other, hother, hapart, hsame⟩
    obtain ⟨herrors, hprogram⟩ := (apart_iff_parse_rewrite hother).2 hapart
    rw [← hsame]
    refine ⟨herrors, Program.render_eq_of_map_eq (readable_of_parse _) (readable_of_parse _) ?_⟩
    rw [Program.map_unmark_literal, Program.map_unmark_literal, hprogram]

/-- A call between bindings. -/
theorem parse_rewrite_iff_bindings :
    (parse "let f = fn(x) { x };f(1); let y = 2; y").errors = [] ∧
      (parse (rewrite "let f = fn(x) { x };f(1); let y = 2; y")).errors = [] ∧
        rewrite (rewrite "let f = fn(x) { x };f(1); let y = 2; y") =
          rewrite "let f = fn(x) { x };f(1); let y = 2; y" :=
  have h : (parse "let f = fn(x) { x };f(1); let y = 2; y").errors = [] := by decide +kernel
  ⟨h, (parse_rewrite_iff h).2.2 ⟨_, h, by decide +kernel, rfl⟩⟩

/-- A name and a negation are written as the call `a(-b)`, which is written as `a((-b))`. -/
theorem rewrite_rewrite_negation :
    (parse "a; -b").errors = [] ∧
      ¬ ((parse (rewrite "a; -b")).errors = [] ∧
        rewrite (rewrite "a; -b") = rewrite "a; -b") := by
  decide +kernel

end Treewalk
