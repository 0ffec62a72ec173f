import Treewalk.Proofs.Syntax.Completeness
import Treewalk.Proofs.Token.Written

/-! # Written programs

A tree is read back from any text that writes one of its spellings.

* `Leaf.Plain` are the leaves that can be written out: names that are not keywords, integers that
  are not negative, and strings without a quote.
* `Allows` are the conditions under which all tokens of a spelling have a property.  So all tokens of
  a tree with plain leaves can be written out (`Stmt.ListSpelled.writable`), and no spelling has a
  character that starts no token (`Stmt.ListSpelled.ne_illegal`).
* A spelling depends on the kinds and the literals of the tokens only: other tokens with the same
  faces spell the same tree with other marks (`Stmt.ListSpelled.of_faces`).
* `parse_of_written` puts the two together with what scanning finds. -/

namespace Treewalk

open Token

/-- The mark of a bare tree. -/
def unmark {α : Type} (_ : α) : Unit :=
  ()

/-- A leaf that can be written out. -/
def Leaf.Plain {α : Type} : Leaf α → Prop
  | name s => IsWord s ∧ Kind.ofWord s = .ident
  | int v => 0 ≤ v
  | string s => '"' ∉ s.toList
  | word _ _ => True

section

variable {α : Type} {mark : Token → α} {closed : Bool}

/-! ### The tokens of a spelling -/

/-- The property `P` holds of every token in a spelling of a tree whose leaves have the property
`ok`. -/
structure Allows (ok : Leaf α → Prop) (P : Token → Prop) : Prop where
  fixed : ∀ {t : Token} {k : Kind}, t.Is k → k.isFixed = true → P t
  name : ∀ {t : Token}, t.kind = .ident → ok (.name t.literal) → P t
  int : ∀ {t : Token} {v : Int64}, t.Shows v → P t
  string : ∀ {t : Token}, t.kind = .string → ok (.string t.literal) → P t

theorem Token.Shows.writable {t : Token} {v : Int64} (h : t.Shows v) : t.Writable :=
  .int h.1 h.2.1.1 h.2.1.2

section

variable {ok : Leaf α → Prop} {P : Token → Prop} (ha : Allows ok P)

include ha

theorem Ending.forall_mem {ts : List Token} (h : Ending ts) : ∀ t ∈ ts, P t := by
  cases h with
  | none => simp
  | semicolon ht => simpa using ha.fixed ht rfl

theorem Ident.ListSpelled.forall_mem {is : List (Ident α)} {ts : List Token}
    (h : Ident.ListSpelled mark is ts) (hp : ∀ i ∈ is, ok (.name i.name)) : ∀ t ∈ ts, P t := by
  induction h with
  | nil => simp
  | one ht =>
      rw [List.forall_mem_singleton] at hp ⊢
      exact ha.name ht hp
  | cons ht hcomma _ ih =>
      rw [List.forall_mem_cons] at hp
      rw [List.forall_mem_cons, List.forall_mem_cons]
      exact ⟨ha.name ht hp.1, ha.fixed hcomma rfl, ih hp.2⟩

mutual

theorem Expr.Spelled.forall_mem {place : Place} {e : Expr α} {ts : List Token}
    (h : Expr.Spelled mark closed place e ts) (hp : ∀ l ∈ e.leaves, ok l) :
    ∀ t ∈ ts, P t :=
  match h with
  | .bare _ hb => hb.forall_mem hp
  | .pair hl he hr => by
      have hts := he.forall_mem hp
      simp only [List.forall_mem_cons, List.forall_mem_append]
      exact ⟨ha.fixed hl rfl, hts, ha.fixed hr rfl, by simp⟩

theorem Expr.Bare.forall_mem {e : Expr α} {ts : List Token} (h : Expr.Bare mark closed e ts)
    (hp : ∀ l ∈ e.leaves, ok l) : ∀ t ∈ ts, P t :=
  match h with
  | .name ht => by
      rw [Expr.leaves, List.forall_mem_singleton] at hp
      rw [List.forall_mem_singleton]
      exact ha.name ht hp
  | .int ht => by
      rw [List.forall_mem_singleton]
      exact ha.int ht
  | .string ht => by
      rw [Expr.leaves, List.forall_mem_singleton] at hp
      rw [List.forall_mem_singleton]
      exact ha.string ht hp
  | .bool ht => by
      rw [List.forall_mem_singleton]
      exact ha.fixed ht (by split <;> rfl)
  | .unary ht he => by
      have hts := he.forall_mem hp
      rw [List.forall_mem_cons]
      exact ⟨ha.fixed ht (UnaryOp.isFixed_kind _), hts⟩
  | .binary hl ht hr => by
      simp only [Expr.leaves, List.forall_mem_append] at hp
      have hls := hl.forall_mem hp.1
      have hrs := hr.forall_mem hp.2
      simp only [List.forall_mem_cons, List.forall_mem_append]
      exact ⟨hls, ha.fixed ht (BinaryOp.isFixed_kind _), hrs⟩
  | .cond ht hl htest hr hyes => by
      simp only [Expr.leaves, List.forall_mem_append] at hp
      have hts := htest.forall_mem hp.1
      have hys := hyes.forall_mem hp.2
      simp only [List.forall_mem_cons, List.forall_mem_append]
      exact ⟨ha.fixed ht rfl, ha.fixed hl rfl, hts, ha.fixed hr rfl, hys⟩
  | .condElse ht hl htest hr hyes hw hno => by
      simp only [Expr.leaves, List.forall_mem_append] at hp
      have hts := htest.forall_mem hp.1
      have hys := hyes.forall_mem hp.2.1
      have hns := hno.forall_mem hp.2.2
      simp only [List.forall_mem_cons, List.forall_mem_append]
      exact ⟨ha.fixed ht rfl, ha.fixed hl rfl, hts, ha.fixed hr rfl, hys, ha.fixed hw rfl, hns⟩
  | .func ht hl hps hr hbody => by
      simp only [Expr.leaves, List.forall_mem_cons, List.forall_mem_append,
        List.forall_mem_map] at hp
      have hts := hps.forall_mem ha hp.2.1
      have hbs := hbody.forall_mem hp.2.2
      simp only [List.forall_mem_cons, List.forall_mem_append]
      exact ⟨ha.fixed ht rfl, ha.fixed hl rfl, hts, ha.fixed hr rfl, hbs⟩
  | .call hcallee hl hargs hr => by
      simp only [Expr.leaves, List.forall_mem_append] at hp
      have hcs := hcallee.forall_mem hp.1
      have hts := hargs.forall_mem hp.2
      simp only [List.forall_mem_cons, List.forall_mem_append]
      exact ⟨hcs, ha.fixed hl rfl, hts, ha.fixed hr rfl, by simp⟩
  | .array hl hes hr => by
      have hts := hes.forall_mem hp
      simp only [List.forall_mem_cons, List.forall_mem_append]
      exact ⟨ha.fixed hl rfl, hts, ha.fixed hr rfl, by simp⟩
  | .index htarget hl hkey hr => by
      simp only [Expr.leaves, List.forall_mem_append] at hp
      have hus := htarget.forall_mem hp.1
      have hts := hkey.forall_mem hp.2
      simp only [List.forall_mem_cons, List.forall_mem_append]
      exact ⟨hus, ha.fixed hl rfl, hts, ha.fixed hr rfl, by simp⟩
  | .table hl hes hr => by
      have hts := hes.forall_mem hp
      simp only [List.forall_mem_cons, List.forall_mem_append]
      exact ⟨ha.fixed hl rfl, hts, ha.fixed hr rfl, by simp⟩

theorem Expr.ListSpelled.forall_mem {es : List (Expr α)} {ts : List Token}
    (h : Expr.ListSpelled mark closed es ts) (hp : ∀ l ∈ Expr.allLeaves es, ok l) :
    ∀ t ∈ ts, P t :=
  match h with
  | .nil => by simp
  | .one he => by
      simp only [Expr.allLeaves, List.append_nil] at hp
      exact he.forall_mem hp
  | .cons he hcomma hes => by
      rw [Expr.allLeaves, List.forall_mem_append] at hp
      have hts := he.forall_mem hp.1
      have hus := hes.forall_mem hp.2
      simp only [List.forall_mem_cons, List.forall_mem_append]
      exact ⟨hts, ha.fixed hcomma rfl, hus⟩

theorem Expr.EntriesSpelled.forall_mem {es : List (Expr α × Expr α)} {ts : List Token}
    (h : Expr.EntriesSpelled mark closed es ts) (hp : ∀ l ∈ Expr.entryLeaves es, ok l) :
    ∀ t ∈ ts, P t :=
  match h with
  | .nil => by simp
  | .one hk hcolon hv => by
      simp only [Expr.entryLeaves, List.forall_mem_append] at hp
      have hks := hk.forall_mem hp.1
      have hvs := hv.forall_mem hp.2.1
      simp only [List.forall_mem_cons, List.forall_mem_append]
      exact ⟨hks, ha.fixed hcolon rfl, hvs⟩
  | .cons hk hcolon hv hcomma hes => by
      simp only [Expr.entryLeaves, List.forall_mem_append] at hp
      have hks := hk.forall_mem hp.1
      have hvs := hv.forall_mem hp.2.1
      have hts := hes.forall_mem hp.2.2
      simp only [List.forall_mem_cons, List.forall_mem_append]
      exact ⟨hks, ha.fixed hcolon rfl, hvs, ha.fixed hcomma rfl, hts⟩

theorem Block.Spelled.forall_mem {b : Block α} {ts : List Token}
    (h : Block.Spelled mark closed b ts) (hp : ∀ l ∈ b.leaves, ok l) : ∀ t ∈ ts, P t :=
  match h with
  | .braces hl hss hr => by
      have hts := hss.forall_mem hp
      simp only [List.forall_mem_cons, List.forall_mem_append]
      exact ⟨ha.fixed hl rfl, hts, ha.fixed hr rfl, by simp⟩

theorem Stmt.Spelled.forall_mem {s : Stmt α} {ts : List Token} (h : Stmt.Spelled mark closed s ts)
    (hp : ∀ l ∈ s.leaves, ok l) : ∀ t ∈ ts, P t :=
  match h with
  | .bind ht hi heq he => by
      simp only [Stmt.leaves, List.forall_mem_cons] at hp
      have hts := he.forall_mem hp.2.2
      simp only [List.forall_mem_cons]
      exact ⟨ha.fixed ht rfl, ha.name hi hp.2.1, ha.fixed heq rfl, hts⟩
  | .ret ht => by
      rw [List.forall_mem_singleton]
      exact ha.fixed ht rfl
  | .retValue ht he => by
      rw [Stmt.leaves, List.forall_mem_cons] at hp
      have hts := he.forall_mem hp.2
      rw [List.forall_mem_cons]
      exact ⟨ha.fixed ht rfl, hts⟩
  | .expr he => he.forall_mem hp

/-- What holds of all tokens that a grammatical part can have holds of all tokens of a spelling. -/
theorem Stmt.ListSpelled.forall_mem {ss : List (Stmt α)} {ts : List Token}
    (h : Stmt.ListSpelled mark closed ss ts) (hp : ∀ l ∈ Stmt.allLeaves ss, ok l) :
    ∀ t ∈ ts, P t :=
  match h with
  | .nil => by simp
  | .cons hs hus _ hss => by
      rw [Stmt.allLeaves, List.forall_mem_append] at hp
      have hts := hs.forall_mem hp.1
      have hvs := hss.forall_mem hp.2
      simp only [List.forall_mem_append]
      exact ⟨hts, hus.forall_mem ha, hvs⟩

end

end

theorem allows_writable : Allows (Leaf.Plain (α := α)) Token.Writable where
  fixed := Token.Is.writable
  name := fun hk hp => .word hp.1 (by rw [hp.2, hk])
  int := Token.Shows.writable
  string := .string

/-- A tree with plain leaves is spelled by tokens that can be written out. -/
theorem Stmt.ListSpelled.writable {ss : List (Stmt α)} {ts : List Token}
    (h : Stmt.ListSpelled mark closed ss ts) (hp : ∀ l ∈ Stmt.allLeaves ss, l.Plain) :
    ∀ t ∈ ts, t.Writable :=
  h.forall_mem allows_writable hp

theorem allows_ne_illegal : Allows (fun _ : Leaf α => True) fun t => t.kind ≠ .illegal where
  fixed := by
    rintro t k ⟨hk, -⟩ hf hill
    rw [← hk, hill] at hf
    cases hf
  name := fun hk _ => by rw [hk]; decide
  int := fun hv => by rw [hv.1]; decide
  string := fun hk _ => by rw [hk]; decide

/-- No spelling has a character that starts no token. -/
theorem Stmt.ListSpelled.ne_illegal {ss : List (Stmt α)} {ts : List Token}
    (h : Stmt.ListSpelled mark closed ss ts) : ∀ t ∈ ts, t.kind ≠ .illegal :=
  h.forall_mem allows_ne_illegal fun _ _ => trivial

end

/-! ### Other tokens with the same faces -/

section

variable {closed : Bool}

theorem Token.Is.of_face {t u : Token} {k : Kind} (h : t.Is k) (hu : u.face = t.face) : u.Is k := by
  obtain ⟨hkind, hlit⟩ := Prod.mk.inj hu
  rw [Token.Is, hkind, hlit]
  exact h

theorem Token.Shows.of_face {t u : Token} {v : Int64} (h : t.Shows v) (hu : u.face = t.face) :
    u.Shows v := by
  obtain ⟨hkind, hlit⟩ := Prod.mk.inj hu
  rw [Token.Shows, hkind, hlit]
  exact h

theorem Ending.of_face {ts us : List Token} (h : Ending ts) (hus : us.map face = ts.map face) :
    Ending us := by
  cases h with
  | none =>
      rw [List.map_nil, List.map_eq_nil_iff] at hus
      rw [hus]
      exact .none
  | semicolon ht =>
      simp only [List.map_cons, List.map_nil, List.map_eq_cons_iff, List.map_eq_nil_iff] at hus
      obtain ⟨u, _, rfl, hu, rfl⟩ := hus
      exact .semicolon (ht.of_face hu)

theorem Ident.ListSpelled.of_faces {is : List (Ident Unit)} {ts : List Token}
    (h : Ident.ListSpelled unmark is ts) {us : List Token} (hus : us.map face = ts.map face) :
    ∃ js : List (Ident Token), js.map (Ident.map unmark) = is ∧ Ident.ListSpelled id js us := by
  induction h generalizing us with
  | nil =>
      rw [List.map_nil, List.map_eq_nil_iff] at hus
      rw [hus]
      exact ⟨[], rfl, .nil⟩
  | one ht =>
      simp only [List.map_cons, List.map_nil, List.map_eq_cons_iff, List.map_eq_nil_iff] at hus
      obtain ⟨u, _, rfl, hu, rfl⟩ := hus
      obtain ⟨hkind, hlit⟩ := Prod.mk.inj hu
      exact ⟨[⟨u, u.literal⟩], by simp [Ident.map, hlit, unmark], .one (hkind.trans ht)⟩
  | cons ht hcomma _ ih =>
      simp only [List.map_cons, List.map_eq_cons_iff] at hus
      obtain ⟨u, _, rfl, hu, c, us, rfl, hc, hus⟩ := hus
      obtain ⟨hkind, hlit⟩ := Prod.mk.inj hu
      obtain ⟨js, hjs, hspelled⟩ := ih hus
      cases js with
      | nil => simp at hjs
      | cons j js =>
          refine ⟨⟨u, u.literal⟩ :: j :: js, ?_, .cons (hkind.trans ht) (hcomma.of_face hc) hspelled⟩
          rw [List.map_cons, hjs]
          simp [Ident.map, hlit, unmark]

theorem Expr.rank_map {α β : Type} (f : α → β) (e : Expr α) : (e.map f).rank = e.rank := by
  cases e with
  | cond _ _ _ no => cases no <;> rfl
  | _ => rfl

theorem Place.encloses_map_iff {α β : Type} (f : α → β) (place : Place) (e : Expr α) :
    place.Encloses (e.map f) ↔ place.Encloses e := by
  rw [Place.encloses_iff, Place.encloses_iff, Expr.rank_map]

mutual

theorem Expr.Spelled.of_faces {place : Place} {e : Expr Unit} {ts : List Token}
    (h : Expr.Spelled unmark closed place e ts) {us : List Token}
    (hus : us.map face = ts.map face) :
    ∃ p : Expr Token, p.map unmark = e ∧ Expr.Spelled id closed place p us :=
  match h with
  | .bare hplace hb => by
      obtain ⟨p, hp, hspelled⟩ := hb.of_faces hus
      refine ⟨p, hp, .bare ?_ hspelled⟩
      rwa [← hp, Place.encloses_map_iff] at hplace
  | .pair hl he hr => by
      simp only [List.map_cons, List.map_append, List.map_nil, List.map_eq_cons_iff,
        List.map_eq_append_iff, List.map_eq_nil_iff] at hus
      obtain ⟨l', _, rfl, hl', us, _, rfl, hus, r', _, rfl, hr', rfl⟩ := hus
      obtain ⟨p, hp, hspelled⟩ := he.of_faces hus
      exact ⟨p, hp, .pair (hl.of_face hl') hspelled (hr.of_face hr')⟩

theorem Expr.Bare.of_faces {e : Expr Unit} {ts : List Token} (h : Expr.Bare unmark closed e ts)
    {us : List Token} (hus : us.map face = ts.map face) :
    ∃ p : Expr Token, p.map unmark = e ∧ Expr.Bare id closed p us :=
  match h with
  | .name ht => by
      simp only [List.map_cons, List.map_nil, List.map_eq_cons_iff, List.map_eq_nil_iff] at hus
      obtain ⟨u, _, rfl, hu, rfl⟩ := hus
      obtain ⟨hkind, hlit⟩ := Prod.mk.inj hu
      exact ⟨.name ⟨u, u.literal⟩, by simp [Expr.map, Ident.map, hlit, unmark],
        .name (hkind.trans ht)⟩
  | .int ht => by
      simp only [List.map_cons, List.map_nil, List.map_eq_cons_iff, List.map_eq_nil_iff] at hus
      obtain ⟨u, _, rfl, hu, rfl⟩ := hus
      exact ⟨.int u _, rfl, .int (ht.of_face hu)⟩
  | .string ht => by
      simp only [List.map_cons, List.map_nil, List.map_eq_cons_iff, List.map_eq_nil_iff] at hus
      obtain ⟨u, _, rfl, hu, rfl⟩ := hus
      obtain ⟨hkind, hlit⟩ := Prod.mk.inj hu
      exact ⟨.string u u.literal, by simp [Expr.map, hlit, unmark], .string (hkind.trans ht)⟩
  | .bool ht => by
      simp only [List.map_cons, List.map_nil, List.map_eq_cons_iff, List.map_eq_nil_iff] at hus
      obtain ⟨u, _, rfl, hu, rfl⟩ := hus
      exact ⟨.bool u _, rfl, .bool (ht.of_face hu)⟩
  | .unary ht he => by
      simp only [List.map_cons, List.map_eq_cons_iff] at hus
      obtain ⟨u, us, rfl, hu, hus⟩ := hus
      obtain ⟨p, hp, hspelled⟩ := he.of_faces hus
      exact ⟨.unary u _ p, by simp [Expr.map, hp, unmark], .unary (ht.of_face hu) hspelled⟩
  | .binary hl ht hr => by
      simp only [List.map_cons, List.map_append, List.map_eq_cons_iff,
        List.map_eq_append_iff] at hus
      obtain ⟨ls, _, rfl, hls, u, rs, rfl, hu, hrs⟩ := hus
      obtain ⟨l, hlm, hlspelled⟩ := hl.of_faces hls
      obtain ⟨r, hrm, hrspelled⟩ := hr.of_faces hrs
      exact ⟨.binary u l _ r, by simp [Expr.map, hlm, hrm, unmark],
        .binary hlspelled (ht.of_face hu) hrspelled⟩
  | .cond ht hl htest hr hyes => by
      simp only [List.map_cons, List.map_append, List.map_eq_cons_iff,
        List.map_eq_append_iff] at hus
      obtain ⟨u, _, rfl, hu, l, _, rfl, hul, ts, _, rfl, hts, r, ys, rfl, hur, hys⟩ := hus
      obtain ⟨p, hp, hspelled⟩ := htest.of_faces hts
      obtain ⟨y, hy, hyspelled⟩ := hyes.of_faces hys
      exact ⟨.cond u p y none, by simp [Expr.map, hp, hy, unmark],
        .cond (ht.of_face hu) (hl.of_face hul) hspelled (hr.of_face hur) hyspelled⟩
  | .condElse ht hl htest hr hyes hw hno => by
      simp only [List.map_cons, List.map_append, List.map_eq_cons_iff,
        List.map_eq_append_iff] at hus
      obtain ⟨u, _, rfl, hu, l, _, rfl, hul, ts, _, rfl, hts, r, _, rfl, hur, ys, _, rfl, hys,
        w, ns, rfl, huw, hns⟩ := hus
      obtain ⟨p, hp, hspelled⟩ := htest.of_faces hts
      obtain ⟨y, hy, hyspelled⟩ := hyes.of_faces hys
      obtain ⟨n, hn, hnspelled⟩ := hno.of_faces hns
      exact ⟨.cond u p y (some n), by simp [Expr.map, hp, hy, hn, unmark],
        .condElse (ht.of_face hu) (hl.of_face hul) hspelled (hr.of_face hur) hyspelled
          (hw.of_face huw) hnspelled⟩
  | .func ht hl hps hr hbody => by
      simp only [List.map_cons, List.map_append, List.map_eq_cons_iff,
        List.map_eq_append_iff] at hus
      obtain ⟨u, _, rfl, hu, l, _, rfl, hul, ts, _, rfl, hts, r, bs, rfl, hur, hbs⟩ := hus
      obtain ⟨js, hjs, hspelled⟩ := hps.of_faces hts
      obtain ⟨b, hb, hbspelled⟩ := hbody.of_faces hbs
      exact ⟨.func u js b, by simp [Expr.map, hjs, hb, unmark],
        .func (ht.of_face hu) (hl.of_face hul) hspelled (hr.of_face hur) hbspelled⟩
  | .call hcallee hl hargs hr => by
      simp only [List.map_cons, List.map_append, List.map_nil, List.map_eq_cons_iff,
        List.map_eq_append_iff, List.map_eq_nil_iff] at hus
      obtain ⟨cs, _, rfl, hcs, l, _, rfl, hul, ts, _, rfl, hts, r, _, rfl, hur, rfl⟩ := hus
      obtain ⟨c, hc, hcspelled⟩ := hcallee.of_faces hcs
      obtain ⟨qs, hqs, hspelled⟩ := hargs.of_faces hts
      exact ⟨.call l c qs, by simp [Expr.map, hc, hqs, unmark],
        .call hcspelled (hl.of_face hul) hspelled (hr.of_face hur)⟩
  | .array hl hes hr => by
      simp only [List.map_cons, List.map_append, List.map_nil, List.map_eq_cons_iff,
        List.map_eq_append_iff, List.map_eq_nil_iff] at hus
      obtain ⟨l, _, rfl, hul, ts, _, rfl, hts, r, _, rfl, hur, rfl⟩ := hus
      obtain ⟨qs, hqs, hspelled⟩ := hes.of_faces hts
      exact ⟨.array l qs, by simp [Expr.map, hqs, unmark],
        .array (hl.of_face hul) hspelled (hr.of_face hur)⟩
  | .index htarget hl hkey hr => by
      simp only [List.map_cons, List.map_append, List.map_nil, List.map_eq_cons_iff,
        List.map_eq_append_iff, List.map_eq_nil_iff] at hus
      obtain ⟨vs, _, rfl, hvs, l, _, rfl, hul, ts, _, rfl, hts, r, _, rfl, hur, rfl⟩ := hus
      obtain ⟨t, ht, htspelled⟩ := htarget.of_faces hvs
      obtain ⟨k, hk, hspelled⟩ := hkey.of_faces hts
      exact ⟨.index l t k, by simp [Expr.map, ht, hk, unmark],
        .index htspelled (hl.of_face hul) hspelled (hr.of_face hur)⟩
  | .table hl hes hr => by
      simp only [List.map_cons, List.map_append, List.map_nil, List.map_eq_cons_iff,
        List.map_eq_append_iff, List.map_eq_nil_iff] at hus
      obtain ⟨l, _, rfl, hul, ts, _, rfl, hts, r, _, rfl, hur, rfl⟩ := hus
      obtain ⟨qs, hqs, hspelled⟩ := hes.of_faces hts
      exact ⟨.table l qs, by simp [Expr.map, hqs, unmark],
        .table (hl.of_face hul) hspelled (hr.of_face hur)⟩

theorem Expr.ListSpelled.of_faces {es : List (Expr Unit)} {ts : List Token}
    (h : Expr.ListSpelled unmark closed es ts) {us : List Token}
    (hus : us.map face = ts.map face) :
    ∃ ps : List (Expr Token), ps.map (Expr.map unmark) = es ∧ Expr.ListSpelled id closed ps us :=
  match h with
  | .nil => by
      rw [List.map_nil, List.map_eq_nil_iff] at hus
      rw [hus]
      exact ⟨[], rfl, .nil⟩
  | .one he => by
      obtain ⟨p, hp, hspelled⟩ := he.of_faces hus
      exact ⟨[p], by simp [hp], .one hspelled⟩
  | .cons he hcomma hes => by
      simp only [List.map_cons, List.map_append, List.map_eq_cons_iff,
        List.map_eq_append_iff] at hus
      obtain ⟨ts, _, rfl, hts, c, us, rfl, hc, hus⟩ := hus
      obtain ⟨p, hp, hspelled⟩ := he.of_faces hts
      obtain ⟨ps, hps, hspelleds⟩ := hes.of_faces hus
      obtain ⟨q, qs, rfl, hq, hqs⟩ := List.map_eq_cons_iff.1 hps
      exact ⟨p :: q :: qs, by simp [hp, hq, hqs], .cons hspelled (hcomma.of_face hc) hspelleds⟩

theorem Expr.EntriesSpelled.of_faces {es : List (Expr Unit × Expr Unit)} {ts : List Token}
    (h : Expr.EntriesSpelled unmark closed es ts) {us : List Token}
    (hus : us.map face = ts.map face) :
    ∃ ps : List (Expr Token × Expr Token),
      (ps.map fun e => (e.1.map unmark, e.2.map unmark)) = es ∧
        Expr.EntriesSpelled id closed ps us :=
  match h with
  | .nil => by
      rw [List.map_nil, List.map_eq_nil_iff] at hus
      rw [hus]
      exact ⟨[], rfl, .nil⟩
  | .one hk hcolon hv => by
      simp only [List.map_cons, List.map_append, List.map_eq_cons_iff,
        List.map_eq_append_iff] at hus
      obtain ⟨ks, _, rfl, hks, c, vs, rfl, hc, hvs⟩ := hus
      obtain ⟨k, hkm, hkspelled⟩ := hk.of_faces hks
      obtain ⟨v, hvm, hvspelled⟩ := hv.of_faces hvs
      exact ⟨[(k, v)], by simp [hkm, hvm], .one hkspelled (hcolon.of_face hc) hvspelled⟩
  | .cons hk hcolon hv hcomma hes => by
      simp only [List.map_cons, List.map_append, List.map_eq_cons_iff,
        List.map_eq_append_iff] at hus
      obtain ⟨ks, _, rfl, hks, c, _, rfl, hc, vs, _, rfl, hvs, m, ts, rfl, hm, hts⟩ := hus
      obtain ⟨k, hkm, hkspelled⟩ := hk.of_faces hks
      obtain ⟨v, hvm, hvspelled⟩ := hv.of_faces hvs
      obtain ⟨ps, hps, hspelled⟩ := hes.of_faces hts
      exact ⟨(k, v) :: ps, by simp [hkm, hvm, hps],
        .cons hkspelled (hcolon.of_face hc) hvspelled (hcomma.of_face hm) hspelled⟩

theorem Block.Spelled.of_faces {b : Block Unit} {ts : List Token}
    (h : Block.Spelled unmark closed b ts) {us : List Token} (hus : us.map face = ts.map face) :
    ∃ p : Block Token, p.map unmark = b ∧ Block.Spelled id closed p us :=
  match h with
  | .braces hl hss hr => by
      simp only [List.map_cons, List.map_append, List.map_nil, List.map_eq_cons_iff,
        List.map_eq_append_iff, List.map_eq_nil_iff] at hus
      obtain ⟨l, _, rfl, hul, ts, _, rfl, hts, r, _, rfl, hur, rfl⟩ := hus
      obtain ⟨ps, hps, hspelled⟩ := hss.of_faces hts
      exact ⟨.mk l ps, by simp [Block.map, hps, unmark],
        .braces (hl.of_face hul) hspelled (hr.of_face hur)⟩

theorem Stmt.Spelled.of_faces {s : Stmt Unit} {ts : List Token}
    (h : Stmt.Spelled unmark closed s ts) {us : List Token} (hus : us.map face = ts.map face) :
    ∃ p : Stmt Token, p.map unmark = s ∧ Stmt.Spelled id closed p us :=
  match h with
  | .bind ht hi heq he => by
      simp only [List.map_cons, List.map_eq_cons_iff] at hus
      obtain ⟨u, _, rfl, hu, i, _, rfl, hui, q, us, rfl, hq, hus⟩ := hus
      obtain ⟨hkind, hlit⟩ := Prod.mk.inj hui
      obtain ⟨p, hp, hspelled⟩ := he.of_faces hus
      exact ⟨.bind u ⟨i, i.literal⟩ p, by simp [Stmt.map, Ident.map, hlit, hp, unmark],
        .bind (ht.of_face hu) (hkind.trans hi) (heq.of_face hq) hspelled⟩
  | .ret ht => by
      simp only [List.map_cons, List.map_nil, List.map_eq_cons_iff, List.map_eq_nil_iff] at hus
      obtain ⟨u, _, rfl, hu, rfl⟩ := hus
      exact ⟨.ret u none, rfl, .ret (ht.of_face hu)⟩
  | .retValue ht he => by
      simp only [List.map_cons, List.map_eq_cons_iff] at hus
      obtain ⟨u, us, rfl, hu, hus⟩ := hus
      obtain ⟨p, hp, hspelled⟩ := he.of_faces hus
      exact ⟨.ret u (some p), by simp [Stmt.map, hp, unmark], .retValue (ht.of_face hu) hspelled⟩
  | .expr he => by
      obtain ⟨u, us, rfl, hu, hus'⟩ := List.map_eq_cons_iff.1 hus
      obtain ⟨p, hp, hspelled⟩ := he.of_faces hus
      exact ⟨.expr u p, by simp [Stmt.map, hp, unmark], .expr hspelled⟩

/-- Tokens with the faces of those that spell a tree spell it too. -/
theorem Stmt.ListSpelled.of_faces {ss : List (Stmt Unit)} {ts : List Token}
    (h : Stmt.ListSpelled unmark closed ss ts) {us : List Token}
    (hus : us.map face = ts.map face) :
    ∃ ps : List (Stmt Token), ps.map (Stmt.map unmark) = ss ∧ Stmt.ListSpelled id closed ps us :=
  match h with
  | .nil => by
      rw [List.map_nil, List.map_eq_nil_iff] at hus
      rw [hus]
      exact ⟨[], rfl, .nil⟩
  | .cons hs hend hlast hss => by
      simp only [List.map_append, List.map_eq_append_iff] at hus
      obtain ⟨ts, _, rfl, hts, us, vs, rfl, hus, hvs⟩ := hus
      obtain ⟨p, hp, hspelled⟩ := hs.of_faces hts
      obtain ⟨ps, hps, hspelleds⟩ := hss.of_faces hvs
      refine ⟨p :: ps, by simp [hp, hps], .cons hspelled (hend.of_face hus) ?_ hspelleds⟩
      intro hclosed hne hnil
      rw [hnil, List.map_nil, eq_comm, List.map_eq_nil_iff] at hus
      exact hlast hclosed (by rw [← hps]; simpa using hne) hus

end

end

/-- A text that writes a closed spelling of a tree reads as the tree, without a fault. -/
theorem parse_of_written {p : Program Unit} {ts : List Token} {source : String}
    (h : p.Spelled unmark true ts) (hw : Written ts source.toList) :
    (parse source).errors = [] ∧ (parse source).program.map unmark = p := by
  have hfaces : (tokens source).map face = ts.map face := faces_of_written hw 0
  obtain ⟨q, hq, hspelled⟩ := Stmt.ListSpelled.of_faces h hfaces
  rw [parse_of_spelled hspelled]
  exact ⟨rfl, hq⟩

/-- The tokens of `(a + 1) * 2`, with the parentheses that the product asks for. -/
theorem spelled_product : Expr.Bare unmark true
    (.binary () (.binary () (.name ⟨(), "a"⟩) .add (.int () 1)) .mul (.int () 2))
    [Kind.token .lparen, .bare .ident "a", Kind.token .plus, .bare .int "1", Kind.token .rparen,
      Kind.token .asterisk, .bare .int "2"] := by
  have ha : Expr.Bare unmark true (.name ⟨(), "a"⟩) [Token.bare .ident "a"] :=
    .name (t := Token.bare .ident "a") rfl
  have h1 : Expr.Bare unmark true (.int () 1) [Token.bare .int "1"] :=
    .int (t := Token.bare .int "1") (by decide)
  have h2 : Expr.Bare unmark true (.int () 2) [Token.bare .int "2"] :=
    .int (t := Token.bare .int "2") (by decide)
  have hsum : Expr.Bare unmark true (.binary () (.name ⟨(), "a"⟩) .add (.int () 1))
      [Token.bare .ident "a", Kind.token .plus, .bare .int "1"] :=
    .binary (t := Kind.token .plus) (.bare id ha) (Kind.is_token .plus) (.bare id h1)
  have hpair : Expr.Spelled unmark true (.left .mul)
      (.binary () (.name ⟨(), "a"⟩) .add (.int () 1))
      [Kind.token .lparen, .bare .ident "a", Kind.token .plus, .bare .int "1",
        Kind.token .rparen] :=
    .pair (Kind.is_token .lparen) (.bare id hsum) (Kind.is_token .rparen)
  exact .binary (t := Kind.token .asterisk) hpair (Kind.is_token .asterisk) (.bare id h2)

/-- The tokens of `a == b + 1 * 23 < c`.  No operator asks for parentheses around another one. -/
theorem spelled_comparison : Expr.Bare unmark true
    (.binary () (.name ⟨(), "a"⟩) .eq (.binary () (.binary () (.name ⟨(), "b"⟩) .add
      (.binary () (.int () 1) .mul (.int () 23))) .lt (.name ⟨(), "c"⟩)))
    [.bare .ident "a", Kind.token .eq, .bare .ident "b", Kind.token .plus, .bare .int "1",
      Kind.token .asterisk, .bare .int "23", Kind.token .lt, .bare .ident "c"] := by
  have hname : ∀ x, Expr.Bare unmark true (.name ⟨(), x⟩) [Token.bare .ident x] := fun x =>
    .name (t := Token.bare .ident x) rfl
  have h1 : Expr.Bare unmark true (.int () 1) [Token.bare .int "1"] :=
    .int (t := Token.bare .int "1") (by decide)
  have h23 : Expr.Bare unmark true (.int () 23) [Token.bare .int "23"] :=
    .int (t := Token.bare .int "23") (by decide)
  have hproduct : Expr.Bare unmark true (.binary () (.int () 1) .mul (.int () 23))
      [Token.bare .int "1", Kind.token .asterisk, .bare .int "23"] :=
    .binary (t := Kind.token .asterisk) (.bare id h1) (Kind.is_token .asterisk) (.bare id h23)
  have hsum : Expr.Bare unmark true (.binary () (.name ⟨(), "b"⟩) .add
      (.binary () (.int () 1) .mul (.int () 23))) [Token.bare .ident "b", Kind.token .plus,
        .bare .int "1", Kind.token .asterisk, .bare .int "23"] :=
    .binary (t := Kind.token .plus) (.bare id (hname "b")) (Kind.is_token .plus)
      (.bare (by simp [Place.Encloses, BinaryOp.tightness]) hproduct)
  have hless : Expr.Bare unmark true (.binary () (.binary () (.name ⟨(), "b"⟩) .add
      (.binary () (.int () 1) .mul (.int () 23))) .lt (.name ⟨(), "c"⟩)) [Token.bare .ident "b",
        Kind.token .plus, .bare .int "1", Kind.token .asterisk, .bare .int "23", Kind.token .lt,
        .bare .ident "c"] :=
    .binary (t := Kind.token .lt) (.bare (by simp [Place.Encloses, BinaryOp.tightness]) hsum)
      (Kind.is_token .lt) (.bare id (hname "c"))
  exact .binary (t := Kind.token .eq) (.bare id (hname "a")) (Kind.is_token .eq)
    (.bare (by simp [Place.Encloses, BinaryOp.tightness]) hless)

/-- **The whole grammar is read.**  A tree with plain leaves is read, without a fault, from each of
its closed spellings, however many parentheses stand around its parts. -/
theorem parse_of_spaced {p : Program Unit} {ts : List Token} {source : String}
    (hp : ∀ s ∈ p, ∀ l ∈ s.leaves, l.Plain) (h : p.Spelled unmark true ts)
    (hs : Spaced ts source.toList) :
    (parse source).errors = [] ∧ (parse source).program.map unmark = p := by
  have hall : ∀ l ∈ Stmt.allLeaves p, l.Plain := by
    intro l hl
    obtain ⟨s, hs, hl⟩ := Stmt.mem_allLeaves.1 hl
    exact hp s hs l hl
  exact parse_of_written h (written_of_spaced hs (Stmt.ListSpelled.writable h hall))

/-- A sum that has to stand in parentheses, and all operators in their order. -/
theorem parse_of_spaced_order :
    (parse "( a + 1 ) * 2 ; a == b + 1 * 23 < c").errors = [] ∧
      (parse "( a + 1 ) * 2 ; a == b + 1 * 23 < c").program.map unmark =
        [.expr () (.binary () (.binary () (.name ⟨(), "a"⟩) .add (.int () 1)) .mul (.int () 2)),
          .expr () (.binary () (.name ⟨(), "a"⟩) .eq (.binary () (.binary () (.name ⟨(), "b"⟩) .add
            (.binary () (.int () 1) .mul (.int () 23))) .lt (.name ⟨(), "c"⟩)))] := by
  have hspelled : Program.Spelled unmark true _ _ :=
    .cons (.expr (.bare id spelled_product)) (.semicolon (Kind.is_token .semicolon)) (by simp)
      (.cons (.expr (.bare id spelled_comparison)) .none (fun _ h => absurd rfl h) .nil)
  refine parse_of_spaced ?_ hspelled ?_
  · simp only [List.forall_mem_cons, Stmt.leaves, Expr.leaves, List.cons_append, List.nil_append,
      Leaf.Plain, List.not_mem_nil, IsEmpty.forall_iff, implies_true, and_true]
    decide
  · exact spaced_intercalate _

end Treewalk
