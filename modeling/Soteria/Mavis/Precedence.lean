import Soteria.Mavis.Conditions

/-
  The meaning of conditions.

  Conditions are written with the usual precedence: `!` binds
  tighter than `&&`, and `&&` tighter than `||`. A condition
  that starts with a bracket is rewritten and parsed to one
  with that meaning. One that starts with `!` is not
  rewritten, and all members of a bracket in it are joined by
  the operator that comes first.

  In both, a reference to an ACL or a timespec is read without
  its negation.

  Key definitions include:
    * `Mavis.Term`, `Mavis.Conj`, `Mavis.Alts`
    * `Mavis.Term.holds`
    * `Mavis.Term.asRead`, `Mavis.Term.plain`
    * `Mavis.Term.flat`
-/

------------------------------------------------------------
-- Conditions as They Are Written
------------------------------------------------------------

namespace Soteria

namespace Mavis

mutual

/- An operand: a comparison, a reference, a negation or a
   bracket. -/
inductive Term where
  | compare (lhs : String) (negated regex : Bool) (rhs : String)
  | named (time negated : Bool) (name : String)
  | not (t : Term)
  | group (alts : Alts)

/- Operands joined by `&&`. -/
inductive Conj where
  | one (t : Term)
  | and (t : Term) (rest : Conj)

/- Conjunctions joined by `||`. -/
inductive Alts where
  | one (c : Conj)
  | or (c : Conj) (rest : Alts)

end

/- The first token of an operator. -/
def opening (negated : Bool) : Tok :=
  if negated then .exclmark else .equal

def compareToks
    (lhs : String) (negated regex : Bool) (rhs : String) :
    List Tok :=
  [.word lhs, opening negated, if regex then .tilde else .equal,
    .word rhs]

def namedToks (time negated : Bool) (name : String) : List Tok :=
  [if time then .time else .acl, opening negated, .equal,
    .word name]

mutual

def Term.toks : Term → List Tok
| .compare lhs negated regex rhs =>
    compareToks lhs negated regex rhs
| .named time negated name => namedToks time negated name
| .not t => .exclmark :: t.toks
| .group alts => .leftbra :: (alts.toks ++ [.rightbra])

def Conj.toks : Conj → List Tok
| .one t => t.toks
| .and t rest => t.toks ++ .and :: rest.toks

def Alts.toks : Alts → List Tok
| .one c => c.toks
| .or c rest => c.toks ++ .or :: rest.toks

end

def compareTest (lhs : String) (regex : Bool) (rhs : String) :
    Test :=
  if regex then .regex lhs rhs else .equal lhs rhs

def namedTest (time : Bool) (name : String) : Test :=
  if time then .time name else .acl name

mutual

/- The meaning, for a valuation of the comparisons. -/
def Term.holds (val : Test → Bool) : Term → Bool
| .compare lhs negated regex rhs =>
    val (compareTest lhs regex rhs) != negated
| .named time negated name =>
    val (namedTest time name) != negated
| .not t => !t.holds val
| .group alts => alts.holds val

def Conj.holds (val : Test → Bool) : Conj → Bool
| .one t => t.holds val
| .and t rest => t.holds val && rest.holds val

def Alts.holds (val : Test → Bool) : Alts → Bool
| .one c => c.holds val
| .or c rest => c.holds val || rest.holds val

end

mutual

/- The condition that is read: `acl != name` is read as
   `acl == name`, and so is `time`. The parser returns the
   condition that it made before the negated one. -/
def Term.asRead : Term → Term
| .compare lhs negated regex rhs =>
    .compare lhs negated regex rhs
| .named time _ name => .named time false name
| .not t => .not t.asRead
| .group alts => .group alts.asRead

def Conj.asRead : Conj → Conj
| .one t => .one t.asRead
| .and t rest => .and t.asRead rest.asRead

def Alts.asRead : Alts → Alts
| .one c => .one c.asRead
| .or c rest => .or c.asRead rest.asRead

end

mutual

/- No reference to an ACL or a timespec is negated. -/
def Term.plain : Term → Bool
| .compare .. => true
| .named _ negated _ => !negated
| .not t => t.plain
| .group alts => alts.plain

def Conj.plain : Conj → Bool
| .one t => t.plain
| .and t rest => t.plain && rest.plain

def Alts.plain : Alts → Bool
| .one c => c.plain
| .or c rest => c.plain && rest.plain

end

mutual

/- Such a condition is read as it is written. -/
theorem Term.asRead_eq (t : Term) (h : t.plain = true) :
    t.asRead = t := by
  cases t with
  | compare lhs negated regex rhs => rfl
  | named time negated name =>
      rw [Term.plain, Bool.not_eq_true'] at h
      rw [Term.asRead, h]
  | not t => rw [Term.asRead, t.asRead_eq h]
  | group alts => rw [Term.asRead, alts.asRead_eq h]

theorem Conj.asRead_eq (c : Conj) (h : c.plain = true) :
    c.asRead = c := by
  cases c with
  | one t => rw [Conj.asRead, t.asRead_eq h]
  | and t rest =>
      rw [Conj.plain, Bool.and_eq_true] at h
      rw [Conj.asRead, t.asRead_eq h.1, rest.asRead_eq h.2]

theorem Alts.asRead_eq (a : Alts) (h : a.plain = true) :
    a.asRead = a := by
  cases a with
  | one c => rw [Alts.asRead, c.asRead_eq h]
  | or c rest =>
      rw [Alts.plain, Bool.and_eq_true] at h
      rw [Alts.asRead, c.asRead_eq h.1, rest.asRead_eq h.2]

end

mutual

/- How deep brackets are nested that are negated, `negated`
   telling whether a `!` stands before. -/
def Term.depth (negated : Bool) : Term → Nat
| .compare .. => 0
| .named .. => 0
| .not t => t.depth true
| .group alts => alts.depth + if negated then 1 else 0

def Conj.depth : Conj → Nat
| .one t => t.depth false
| .and t rest => max (t.depth false) rest.depth

def Alts.depth : Alts → Nat
| .one c => c.depth
| .or c rest => max c.depth rest.depth

end

end Mavis

end Soteria

------------------------------------------------------------
-- The Rewritten Text
------------------------------------------------------------

namespace Soteria

namespace Mavis

/- Three brackets around a text. -/
def triple (ts : List Tok) : List Tok :=
  .leftbra :: .leftbra :: .leftbra ::
    (ts ++ [.rightbra, .rightbra, .rightbra])

mutual

/- What an operand is rewritten to. -/
def Term.normal (negated : Bool) : Term → List Tok
| .compare lhs neg regex rhs => compareToks lhs neg regex rhs
| .named time neg name => namedToks time neg name
| .not t => .exclmark :: t.normal true
| .group alts =>
    if negated then triple alts.normal else alts.normal

/- Every operand of `&&` in brackets. -/
def Conj.normal : Conj → List Tok
| .one t => .leftbra :: (t.normal false ++ [.rightbra])
| .and t rest =>
    .leftbra :: (t.normal false ++ .rightbra :: .and ::
      rest.normal)

/- Every operand of `||` in brackets. -/
def Alts.normal : Alts → List Tok
| .one c => .leftbra :: (c.normal ++ [.rightbra])
| .or c rest =>
    .leftbra :: (c.normal ++ .rightbra :: .or :: rest.normal)

end

mutual

/- The text of a conjunction between its outer brackets. -/
def Conj.inner : Conj → List Tok
| .one t => t.normal false
| .and t rest =>
    t.normal false ++ .rightbra :: .and :: .leftbra ::
      rest.inner

/- The text of alternatives between their outer brackets. -/
def Alts.inner : Alts → List Tok
| .one c => c.inner
| .or c rest =>
    c.inner ++ .rightbra :: .rightbra :: .or :: .leftbra ::
      .leftbra :: rest.inner

end

theorem Conj.normal_eq (c : Conj) :
    c.normal = .leftbra :: (c.inner ++ [.rightbra]) := by
  cases c with
  | one t => simp [Conj.normal, Conj.inner]
  | and t rest =>
      have ih := rest.normal_eq
      simp [Conj.normal, Conj.inner, ih]

theorem Alts.normal_eq (a : Alts) :
    a.normal =
      .leftbra :: .leftbra ::
        (a.inner ++ [.rightbra, .rightbra]) := by
  cases a with
  | one c => simp [Alts.normal, Alts.inner, c.normal_eq]
  | or c rest =>
      have ih := rest.normal_eq
      simp [Alts.normal, Alts.inner, c.normal_eq, ih]

@[simp] theorem width_nil : width [] = 0 := rfl

@[simp] theorem width_cons (tok : Tok) (ts : List Tok) :
    width (tok :: ts) = tok.width + width ts := rfl

@[simp] theorem width_append (ts ts' : List Tok) :
    width (ts ++ ts') = width ts + width ts' := by
  induction ts with
  | nil => simp
  | cons tok ts ih => simp [ih, Nat.add_assoc]

theorem normLoop_cons
    {s s' : Norm} {tok : Tok} (ts : List Tok)
    (hOpen : 0 < s.bc) (hFits : width s.buf < bufLimit)
    (hStep : normStep s tok = some s') :
    normLoop (tok :: ts) s = normLoop ts s' := by
  have hRun : running s = true := by
    simp only [running, decide_eq_true_eq]
    exact ⟨by omega, hFits⟩
  rw [normLoop, if_pos hRun, hStep]

/- Tokens that are copied as they are. -/
def Tok.plain : Tok → Bool
| .exclmark | .equal | .tilde | .acl | .time | .word _ => true
| _ => false

theorem normStep_plain
    (s : Norm) {tok : Tok} (h : tok.plain = true) :
    normStep s tok =
      some { s with buf := s.buf ++ [tok], prev := some tok } := by
  cases tok <;> first | rfl | cases h

theorem normLoop_plain
    {s : Norm} {ks : List Tok} (ts : List Tok)
    (hPlain : ∀ k ∈ ks, k.plain = true)
    (hOpen : 0 < s.bc)
    (hFits : width s.buf + width ks < bufLimit) :
    normLoop (ks ++ ts) s =
      normLoop ts { s with
        buf := s.buf ++ ks
        prev := ks.getLast?.or s.prev } := by
  induction ks generalizing s with
  | nil => simp
  | cons k ks ih =>
      rw [width_cons] at hFits
      have hStep := normStep_plain s
        (hPlain k List.mem_cons_self)
      rw [List.cons_append, normLoop_cons (ks ++ ts) hOpen
        (by omega) hStep, ih]
      · rw [List.append_assoc, List.getLast?_cons]
        cases ks.getLast? <;> rfl
      · exact fun k' hk' =>
          hPlain k' (List.mem_cons_of_mem k hk')
      · exact hOpen
      · rw [width_append, width_cons, width_nil]
        omega

/- What the loop needs to go through a piece of text: room in
   the buffer and for the negated brackets. -/
structure Room (s : Norm) (text : List Tok) (depth : Nat) : Prop
    where
  opened : 0 < s.bc
  outside : ∀ x ∈ s.e, x < s.bc
  fits : width s.buf + width text < bufLimit
  deep : s.e.length + depth ≤ ecMax

/- The loop after a piece of text. -/
def Norm.after (s : Norm) (text : List Tok) (prev : Option Tok) :
    Norm :=
  { s with buf := s.buf ++ text, prev }

theorem Room.operator
    {s : Norm} (text : List Tok) {more : List Tok} {depth : Nat}
    (h : Room s (text ++ more) depth) (prev : Option Tok) :
    Room (s.after text prev) more depth where
  opened := h.opened
  outside := h.outside
  fits := by
    have hFits := h.fits
    simp only [Norm.after, width_append] at hFits ⊢
    omega
  deep := h.deep

theorem Room.mono
    {s : Norm} {text text' : List Tok} {depth depth' : Nat}
    (h : Room s text depth)
    (hText : width text' ≤ width text)
    (hDepth : depth' ≤ depth) :
    Room s text' depth' where
  opened := h.opened
  outside := h.outside
  fits := by have := h.fits; omega
  deep := by have := h.deep; omega

theorem Norm.after_after
    (s : Norm) (text text' : List Tok) (p p' : Option Tok) :
    (s.after text p).after text' p' =
      s.after (text ++ text') p' := by
  simp [Norm.after]

theorem normLoop_and
    {s : Norm} {depth : Nat} (ts : List Tok)
    (h : Room s [.rightbra, .and, .leftbra] depth) :
    normLoop (.and :: ts) s =
      normLoop ts
        (s.after [.rightbra, .and, .leftbra] (some .and)) :=
  normLoop_cons ts h.opened
    (by have := h.fits; omega) rfl

theorem normLoop_or
    {s : Norm} {depth : Nat} (ts : List Tok)
    (h : Room s
      [.rightbra, .rightbra, .or, .leftbra, .leftbra] depth) :
    normLoop (.or :: ts) s =
      normLoop ts
        (s.after [.rightbra, .rightbra, .or, .leftbra, .leftbra]
          (some .or)) :=
  normLoop_cons ts h.opened
    (by have := h.fits; omega) rfl

/- A bracket that is not negated. -/
theorem normLoop_open
    {s : Norm} {text : List Tok} {depth : Nat} (ts : List Tok)
    (hPrev : s.prev ≠ some .exclmark)
    (h : Room s text depth) :
    normLoop (.leftbra :: ts) s =
      normLoop ts
        { s.after [.leftbra, .leftbra] (some .leftbra) with
          bc := s.bc + 1 } := by
  refine normLoop_cons ts h.opened
    (by have := h.fits; omega) ?_
  rw [normStep, if_neg hPrev]
  rfl

theorem normLoop_open_negated
    {s : Norm} {text : List Tok} {depth : Nat} (ts : List Tok)
    (hPrev : s.prev = some .exclmark)
    (h : Room s text (depth + 1)) :
    normLoop (.leftbra :: ts) s =
      normLoop ts
        { s.after [.leftbra, .leftbra, .leftbra, .leftbra,
            .leftbra] (some .leftbra) with
          bc := s.bc + 1
          e := s.bc :: s.e } := by
  refine normLoop_cons ts h.opened
    (by have := h.fits; omega) ?_
  rw [normStep, if_pos hPrev,
    if_pos (by have := h.deep; omega)]
  rfl

/- The end of a bracket that is not negated. -/
theorem closeNegated_outside
    {e : List Nat} {bc : Nat} (h : ∀ x ∈ e, x < bc) :
    closeNegated e bc = ([], e) := by
  cases e with
  | nil => rfl
  | cons x rest =>
      have hx := h x List.mem_cons_self
      rw [closeNegated, if_neg (by omega)]

theorem normLoop_close
    (s : Norm) (bc : Nat) (ts : List Tok)
    (hBc : s.bc = bc + 1) (hOpen : 0 < bc)
    (hE : ∀ x ∈ s.e, x < bc)
    (hFits : width s.buf < bufLimit) :
    normLoop (.rightbra :: ts) s =
      normLoop ts
        { s.after [.rightbra, .rightbra] (some .rightbra) with
          bc } := by
  refine normLoop_cons ts (by omega) hFits ?_
  simp only [normStep, hBc, Nat.add_sub_cancel,
    closeNegated_outside hE, if_neg (show bc ≠ 0 by omega)]
  simp [Norm.after]

theorem normLoop_close_negated
    (s : Norm) (bc : Nat) (e : List Nat) (ts : List Tok)
    (hBc : s.bc = bc + 1) (hOpen : 0 < bc)
    (hE : s.e = bc :: e)
    (hFits : width s.buf < bufLimit) :
    normLoop (.rightbra :: ts) s =
      normLoop ts
        { s.after [.rightbra, .rightbra, .rightbra, .rightbra,
            .rightbra] (some .rightbra) with
          bc
          e } := by
  refine normLoop_cons ts (by omega) hFits ?_
  simp only [normStep, hBc, Nat.add_sub_cancel, hE,
    closeNegated, if_true, if_neg (show bc ≠ 0 by omega)]
  simp [Norm.after]

/- A copied operand. -/
theorem norm_copied
    {s : Norm} {ks : List Tok} {depth : Nat}
    (last : Tok) (ts : List Tok)
    (hPlain : ∀ k ∈ ks, k.plain = true)
    (hLast : ks.getLast? = some last)
    (hNot : last ≠ .exclmark)
    (h : Room s ks depth) :
    ∃ p, p ≠ some .exclmark ∧
      normLoop (ks ++ ts) s = normLoop ts (s.after ks p) := by
  refine ⟨some last, by simpa using hNot, ?_⟩
  rw [normLoop_plain ts hPlain h.opened h.fits, hLast]
  rfl

theorem compareToks_plain
    (lhs : String) (negated regex : Bool) (rhs : String) :
    ∀ k ∈ compareToks lhs negated regex rhs,
      k.plain = true := by
  cases negated <;> cases regex <;>
    simp [compareToks, opening, Tok.plain]

theorem namedToks_plain
    (time negated : Bool) (name : String) :
    ∀ k ∈ namedToks time negated name, k.plain = true := by
  cases time <;> cases negated <;>
    simp [namedToks, opening, Tok.plain]

mutual

/- What the loop makes of an operand. -/
theorem Term.norm
    (t : Term) {s : Norm} {negated : Bool} (ts : List Tok)
    (hPrev : s.prev = some .exclmark ↔ negated = true)
    (h : Room s (t.normal negated) (t.depth negated)) :
    ∃ p, p ≠ some .exclmark ∧
      normLoop (t.toks ++ ts) s =
        normLoop ts (s.after (t.normal negated) p) := by
  cases t with
  | compare lhs neg regex rhs =>
      exact norm_copied (.word rhs) ts
        (compareToks_plain lhs neg regex rhs) rfl nofun h
  | named time neg name =>
      exact norm_copied (.word name) ts
        (namedToks_plain time neg name) rfl nofun h
  | not t =>
      have hMark : Room (s.after [.exclmark] (some .exclmark))
          (t.normal true) (t.depth true) :=
        Room.operator [.exclmark] h _
      rcases t.norm ts (by simp [Norm.after]) hMark with
        ⟨p, hp, hLoop⟩
      refine ⟨p, hp, ?_⟩
      rw [Term.toks, List.cons_append,
        normLoop_cons _ h.opened (by have := h.fits; omega)
          (normStep_plain s rfl)]
      exact hLoop.trans (by rw [Norm.after_after]; rfl)
  | group alts =>
      cases negated with
      | false =>
          have hNot : s.prev ≠ some .exclmark := by
            simpa using hPrev
          simp only [Term.normal, Bool.false_eq_true, if_false,
            Term.depth, Alts.normal_eq, Nat.add_zero] at h ⊢
          let s₁ : Norm :=
            { s.after [.leftbra, .leftbra] (some .leftbra) with
              bc := s.bc + 1 }
          have hIn : Room s₁ alts.inner alts.depth := by
            refine ⟨Nat.succ_pos _, ?_, ?_, h.deep⟩
            · intro x hx
              have := h.outside x hx
              exact Nat.lt_succ_of_lt this
            · have hFits := h.fits
              simp only [width_cons, width_append, Tok.width,
                width_nil] at hFits
              simp only [s₁, Norm.after, width_append,
                width_cons, width_nil, Tok.width]
              omega
          rcases alts.norm (.rightbra :: ts)
            (by simp [s₁, Norm.after]) hIn with ⟨p, hp, hLoop⟩
          have hClose := normLoop_close
            (s₁.after alts.inner p) s.bc ts rfl h.opened
            h.outside
            (by simpa [Norm.after] using hIn.fits)
          refine ⟨some .rightbra, nofun, ?_⟩
          rw [Term.toks, List.cons_append, List.append_assoc,
            normLoop_open _ hNot h]
          refine (hLoop.trans hClose).trans ?_
          simp [s₁, Norm.after]
      | true =>
          have hMark : s.prev = some .exclmark := by
            simpa using hPrev
          simp only [Term.normal, if_true, triple,
            Term.depth, Alts.normal_eq] at h ⊢
          let s₁ : Norm :=
            { s.after [.leftbra, .leftbra, .leftbra, .leftbra,
                .leftbra] (some .leftbra) with
              bc := s.bc + 1
              e := s.bc :: s.e }
          have hIn : Room s₁ alts.inner alts.depth := by
            refine ⟨Nat.succ_pos _, ?_, ?_, ?_⟩
            · intro x hx
              rcases List.mem_cons.mp hx with rfl | hx
              · exact Nat.lt_succ_self _
              · exact Nat.lt_succ_of_lt (h.outside x hx)
            · have hFits := h.fits
              simp only [width_cons, width_append, Tok.width,
                width_nil] at hFits
              simp only [s₁, Norm.after, width_append,
                width_cons, width_nil, Tok.width]
              omega
            · have hDeep := h.deep
              simp only [s₁, List.length_cons]
              omega
          rcases alts.norm (.rightbra :: ts)
            (by simp [s₁, Norm.after]) hIn with ⟨p, hp, hLoop⟩
          have hClose := normLoop_close_negated
            (s₁.after alts.inner p) s.bc s.e ts rfl h.opened
            rfl (by simpa [Norm.after] using hIn.fits)
          refine ⟨some .rightbra, nofun, ?_⟩
          rw [Term.toks, List.cons_append, List.append_assoc,
            normLoop_open_negated _ hMark h]
          refine (hLoop.trans hClose).trans ?_
          simp [s₁, Norm.after]

theorem Conj.norm
    (c : Conj) {s : Norm} (ts : List Tok)
    (hPrev : s.prev ≠ some .exclmark)
    (h : Room s c.inner c.depth) :
    ∃ p, p ≠ some .exclmark ∧
      normLoop (c.toks ++ ts) s =
        normLoop ts (s.after c.inner p) := by
  cases c with
  | one t => exact t.norm ts (by simpa using hPrev) h
  | and t rest =>
      rw [Conj.inner, Conj.depth] at h
      have hFirst : Room s (t.normal false) (t.depth false) :=
        h.mono (by simp) (Nat.le_max_left _ _)
      rcases t.norm (.and :: (rest.toks ++ ts))
        (by simpa using hPrev) hFirst with ⟨p, hp, hLoop⟩
      have hRight := h.mono (Nat.le_refl _) (Nat.le_max_right _ _)
      have hRest := hRight.operator (t.normal false) p
      have hAnd := normLoop_and (rest.toks ++ ts)
        (hRest.mono (by simp) (Nat.le_refl _) :
          Room _ [.rightbra, .and, .leftbra] rest.depth)
      rcases rest.norm ts (by simp [Norm.after])
        (hRest.operator [.rightbra, .and, .leftbra]
          (some .and)) with ⟨p', hp', hLoop'⟩
      refine ⟨p', hp', ?_⟩
      rw [Conj.toks, List.append_assoc, List.cons_append, hLoop,
        hAnd, hLoop', Norm.after_after, Norm.after_after]
      simp [Conj.inner]

theorem Alts.norm
    (a : Alts) {s : Norm} (ts : List Tok)
    (hPrev : s.prev ≠ some .exclmark)
    (h : Room s a.inner a.depth) :
    ∃ p, p ≠ some .exclmark ∧
      normLoop (a.toks ++ ts) s =
        normLoop ts (s.after a.inner p) := by
  cases a with
  | one c => exact c.norm ts hPrev h
  | or c rest =>
      rw [Alts.inner, Alts.depth] at h
      have hFirst : Room s c.inner c.depth :=
        h.mono (by simp) (Nat.le_max_left _ _)
      rcases c.norm (.or :: (rest.toks ++ ts)) hPrev hFirst with
        ⟨p, hp, hLoop⟩
      have hRight := h.mono (Nat.le_refl _) (Nat.le_max_right _ _)
      have hRest := hRight.operator c.inner p
      have hOr := normLoop_or (rest.toks ++ ts)
        (hRest.mono (by simp) (Nat.le_refl _) :
          Room _ [.rightbra, .rightbra, .or, .leftbra, .leftbra]
            rest.depth)
      rcases rest.norm ts (by simp [Norm.after])
        (hRest.operator
          [.rightbra, .rightbra, .or, .leftbra, .leftbra]
          (some .or)) with ⟨p', hp', hLoop'⟩
      refine ⟨p', hp', ?_⟩
      rw [Alts.toks, List.append_assoc, List.cons_append, hLoop,
        hOr, hLoop', Norm.after_after, Norm.after_after]
      simp [Alts.inner]

end

theorem normLoop_done
    (ts : List Tok) {s : Norm} (h : s.bc = 0) :
    normLoop ts s = some (s, ts) := by
  have hRun : running s = false := by
    simp [running, h]
  cases ts with
  | nil => rw [normLoop, hRun]; rfl
  | cons tok ts => rw [normLoop, hRun]; rfl

/- The rewritten text of a condition. -/
theorem normalize_alts
    (a : Alts) (rest : List Tok)
    (hFits : width (triple a.normal) < bufLimit + 5)
    (hDeep : a.depth ≤ ecMax) :
    normalize (a.toks ++ .rightbra :: rest) =
      some (triple a.normal, rest) := by
  let s : Norm :=
    { buf := [.leftbra, .leftbra, .leftbra, .leftbra, .leftbra]
      bc := 1
      e := []
      prev := none }
  have hRoom : Room s a.inner a.depth := by
    refine ⟨Nat.one_pos, nofun, ?_, by simpa [s] using hDeep⟩
    simp only [triple, Alts.normal_eq, width_cons,
      width_append, Tok.width, width_nil] at hFits
    simp only [s, width_cons, width_nil, Tok.width]
    omega
  rcases a.norm (.rightbra :: rest) (by simp [s]) hRoom with
    ⟨p, hp, hLoop⟩
  let final : Norm :=
    { buf := s.buf ++ a.inner ++ [.rightbra, .rightbra] ++
        [.rightbra, .rightbra, .rightbra]
      bc := 0
      e := []
      prev := p }
  have hStep : normStep (s.after a.inner p) .rightbra =
      some final := by
    simp [normStep, s, final, Norm.after, closeNegated]
  have hLast := normLoop_cons rest Nat.one_pos
    (by simpa [Norm.after] using hRoom.fits) hStep
  rw [normalize]
  refine (congrArg _ (hLoop.trans (hLast.trans
    (normLoop_done rest rfl)))).trans ?_
  simp [triple, Alts.normal_eq, s, final]

end Mavis

end Soteria

------------------------------------------------------------
-- Parsing the Rewritten Text
------------------------------------------------------------

namespace Soteria

namespace Mavis

/- The parser reads the whole text as a condition, with any fuel
   that covers the text. -/
def Reads (text : List Tok) (m : Cond) : Prop :=
  ∀ fuel rest, text.length ≤ fuel →
    parseR fuel (text ++ rest) = some (m, rest)

/- Texts of further members of a bracket, with an operator
   before each. -/
inductive Members : List Tok → List Cond → Prop
  | nil : Members [] []
  | and {text more : List Tok} {m : Cond} {ms : List Cond}
      (h : Reads text m) (hMore : Members more ms) :
      Members (.and :: (text ++ more)) (m :: ms)
  | or {text more : List Tok} {m : Cond} {ms : List Cond}
      (h : Reads text m) (hMore : Members more ms) :
      Members (.or :: (text ++ more)) (m :: ms)

theorem Members.append
    {text text' : List Tok} {ms ms' : List Cond}
    (h : Members text ms) (h' : Members text' ms') :
    Members (text ++ text') (ms ++ ms') := by
  induction h with
  | nil => exact h'
  | and hRead hMore ih =>
      rw [List.cons_append, List.append_assoc]
      exact .and hRead ih
  | or hRead hMore ih =>
      rw [List.cons_append, List.append_assoc]
      exact .or hRead ih

/- The loop of the parser reads them all. -/
theorem Members.parseMore
    {text : List Tok} {ms : List Cond}
    (h : Members text ms) {fuel : Nat} (rest : List Tok)
    (hFuel : text.length < fuel) :
    parseMore fuel (text ++ .rightbra :: rest) =
      some (ms, .rightbra :: rest) := by
  induction h generalizing fuel with
  | nil =>
      obtain ⟨fuel, rfl⟩ := Nat.exists_eq_succ_of_ne_zero
        (show fuel ≠ 0 by simp at hFuel; omega)
      rw [List.nil_append, Mavis.parseMore]
      · exact nofun
      · exact nofun
  | and hRead hMore ih =>
      simp only [List.length_cons, List.length_append] at hFuel
      obtain ⟨fuel, rfl⟩ := Nat.exists_eq_succ_of_ne_zero
        (show fuel ≠ 0 by omega)
      rw [List.cons_append, List.append_assoc, Mavis.parseMore,
        hRead fuel _ (by omega)]
      simp only [Option.bind_eq_bind, Option.bind_some]
      rw [ih (by omega)]
      rfl
  | or hRead hMore ih =>
      simp only [List.length_cons, List.length_append] at hFuel
      obtain ⟨fuel, rfl⟩ := Nat.exists_eq_succ_of_ne_zero
        (show fuel ≠ 0 by omega)
      rw [List.cons_append, List.append_assoc, Mavis.parseMore,
        hRead fuel _ (by omega)]
      simp only [Option.bind_eq_bind, Option.bind_some]
      rw [ih (by omega)]
      rfl

/- The type of a bracket, from what follows its first member. -/
def groupType (more : List Tok) : Multi :=
  if more.head? = some .and then .and else .or

theorem reads_bracket
    {text more : List Tok} {m : Cond} {ms : List Cond}
    (h : Reads text m) (hMore : Members more ms) :
    Reads (.leftbra :: (text ++ (more ++ [.rightbra])))
      (.multi (groupType more) (m :: ms)) := by
  intro fuel rest hFuel
  simp only [List.length_cons, List.length_append,
    List.length_nil] at hFuel
  obtain ⟨fuel, rfl⟩ := Nat.exists_eq_succ_of_ne_zero
    (show fuel ≠ 0 by omega)
  have hType :
      (if (more ++ .rightbra :: rest).head? = some .and then
        Multi.and else .or) = groupType more := by
    cases more <;> simp [groupType]
  rw [List.cons_append, List.append_assoc, List.append_assoc,
    parseR, h fuel _ (by omega)]
  simp only [Option.bind_eq_bind, Option.bind_some,
    List.cons_append, List.nil_append]
  rw [hMore.parseMore rest (by omega)]
  simp only [Option.bind_some, hType]

theorem reads_exclmark
    {text : List Tok} {m : Cond}
    (h : Reads text m) :
    Reads (.exclmark :: text) (.exclmark m) := by
  intro fuel rest hFuel
  rw [List.length_cons] at hFuel
  obtain ⟨fuel, rfl⟩ := Nat.exists_eq_succ_of_ne_zero
    (show fuel ≠ 0 by omega)
  rw [List.cons_append, parseR, h fuel rest (by omega)]
  rfl

/- A bracket around one condition. -/
theorem reads_single
    {text : List Tok} {m : Cond}
    (h : Reads text m) :
    Reads (.leftbra :: (text ++ [.rightbra]))
      (.multi .or [m]) :=
  reads_bracket h .nil

theorem eval_single
    (val : Test → Bool) (type : Multi) (m : Cond) :
    (Cond.multi type [m]).eval val = m.eval val := by
  cases type <;> simp [Cond.eval, evalAll, evalAny]

theorem reads_compare
    (lhs : String) (negated regex : Bool) (rhs : String) :
    ∃ m, Reads (compareToks lhs negated regex rhs) m ∧
      ∀ val, m.eval val =
        (val (compareTest lhs regex rhs) != negated) := by
  refine ⟨if negated then
    .exclmark (.test (compareTest lhs regex rhs))
    else .test (compareTest lhs regex rhs), ?_, ?_⟩
  · intro fuel rest hFuel
    obtain ⟨fuel, rfl⟩ := Nat.exists_eq_succ_of_ne_zero
      (show fuel ≠ 0 by simp [compareToks] at hFuel; omega)
    cases negated <;> cases regex <;> rfl
  · intro val
    cases negated <;> simp [Cond.eval]

theorem reads_named (time negated : Bool) (name : String) :
    ∃ m, Reads (namedToks time negated name) m ∧
      ∀ val, m.eval val = val (namedTest time name) := by
  refine ⟨.test (namedTest time name), ?_, ?_⟩
  · intro fuel rest hFuel
    obtain ⟨fuel, rfl⟩ := Nat.exists_eq_succ_of_ne_zero
      (show fuel ≠ 0 by simp [namedToks] at hFuel; omega)
    cases negated <;> cases time <;> rfl
  · intro val
    rfl

theorem evalAll_append
    (val : Test → Bool) (ms ms' : List Cond) :
    evalAll val (ms ++ ms') =
      (evalAll val ms && evalAll val ms') := by
  induction ms with
  | nil => simp [evalAll]
  | cons m ms ih => simp [evalAll, ih, Bool.and_assoc]

theorem evalAny_append
    (val : Test → Bool) (ms ms' : List Cond) :
    evalAny val (ms ++ ms') =
      (evalAny val ms || evalAny val ms') := by
  induction ms with
  | nil => simp [evalAny]
  | cons m ms ih => simp [evalAny, ih, Bool.or_assoc]

/- The members of a rewritten bracket: the first one, and those
   after an operator `op`. -/
structure Listed
    (op : Tok) (text : List Tok)
    (meaning : (Test → Bool) → List Cond → Bool)
    (value : (Test → Bool) → Bool) : Prop where
  split : ∃ first more m ms,
    text = first ++ more ∧ Reads first m ∧ Members more ms ∧
      (more = [] ∧ ms = [] ∨ more.head? = some op) ∧
      ∀ val, meaning val (m :: ms) = value val

theorem Listed.and_bracket
    {text : List Tok} {value : (Test → Bool) → Bool}
    (h : Listed .and text evalAll value) :
    ∃ m, Reads (.leftbra :: (text ++ [.rightbra])) m ∧
      ∀ val, m.eval val = value val := by
  rcases h.split with
    ⟨first, more, m, ms, rfl, hRead, hMore, hHead, hVal⟩
  refine ⟨_, by
    rw [List.append_assoc]
    exact reads_bracket hRead hMore, fun val => ?_⟩
  rw [← hVal]
  rcases hHead with ⟨rfl, rfl⟩ | hHead
  · simp [eval_single, evalAll]
  · rw [groupType, if_pos hHead, Cond.eval]

theorem Listed.or_bracket
    {text : List Tok} {value : (Test → Bool) → Bool}
    (h : Listed .or text evalAny value) :
    ∃ m, Reads (.leftbra :: (text ++ [.rightbra])) m ∧
      ∀ val, m.eval val = value val := by
  rcases h.split with
    ⟨first, more, m, ms, rfl, hRead, hMore, hHead, hVal⟩
  refine ⟨_, by
    rw [List.append_assoc]
    exact reads_bracket hRead hMore, fun val => ?_⟩
  rw [← hVal]
  rcases hHead with ⟨rfl, rfl⟩ | hHead
  · simp [eval_single, evalAny]
  · rw [groupType, hHead, if_neg nofun, Cond.eval]

theorem reads_triple
    {text : List Tok} {m : Cond}
    (h : Reads (.leftbra :: (text ++ [.rightbra])) m) :
    Reads (triple text) (.multi .or [.multi .or [m]]) := by
  have hTriple := reads_single (reads_single h)
  simpa [triple] using hTriple

mutual

/- An operand after `!`, and one in brackets. -/
theorem Term.reads (t : Term) :
    (∃ m, Reads (t.normal true) m ∧
      ∀ val, m.eval val = t.asRead.holds val) ∧
    (∃ m, Reads (.leftbra :: (t.normal false ++ [.rightbra])) m ∧
      ∀ val, m.eval val = t.asRead.holds val) := by
  cases t with
  | compare lhs negated regex rhs =>
      rcases reads_compare lhs negated regex rhs with
        ⟨m, hRead, hVal⟩
      exact ⟨⟨m, hRead, hVal⟩, ⟨_, reads_single hRead,
        fun val => (eval_single val _ m).trans (hVal val)⟩⟩
  | named time negated name =>
      rcases reads_named time negated name with
        ⟨m, hRead, hVal⟩
      have hHolds : ∀ val, m.eval val =
          (Term.named time negated name).asRead.holds val := by
        intro val
        rw [hVal, Term.asRead, Term.holds, Bool.bne_false]
      exact ⟨⟨m, hRead, hHolds⟩, ⟨_, reads_single hRead,
        fun val => (eval_single val _ m).trans (hHolds val)⟩⟩
  | not t =>
      rcases t.reads.1 with ⟨m, hRead, hVal⟩
      have hNot : ∀ val, (Cond.exclmark m).eval val =
          (Term.not t).asRead.holds val := by
        intro val
        rw [Cond.eval, hVal, Term.asRead, Term.holds]
      exact ⟨⟨_, reads_exclmark hRead, hNot⟩,
        ⟨_, reads_single (reads_exclmark hRead),
          fun val => (eval_single val _ _).trans (hNot val)⟩⟩
  | group alts =>
      rcases alts.listed.or_bracket with ⟨m, hRead, hVal⟩
      refine ⟨⟨_, reads_triple hRead, fun val => ?_⟩,
        ⟨m, hRead, hVal⟩⟩
      rw [eval_single, eval_single]
      exact hVal val

theorem Conj.listed (c : Conj) :
    Listed .and c.normal evalAll fun val =>
      c.asRead.holds val := by
  cases c with
  | one t =>
      rcases t.reads.2 with ⟨m, hRead, hVal⟩
      refine ⟨_, [], m, [], (List.append_nil _).symm, hRead, .nil,
        Or.inl ⟨rfl, rfl⟩, fun val => ?_⟩
      simp [evalAll, hVal, Conj.asRead, Conj.holds]
  | and t rest =>
      rcases t.reads.2 with ⟨m, hRead, hVal⟩
      rcases rest.listed.split with
        ⟨first, more, m', ms, hText, hRead', hMore, -, hVal'⟩
      refine ⟨_, _, m, m' :: ms, ?_, hRead, .and hRead' hMore,
        Or.inr rfl, fun val => ?_⟩
      · rw [Conj.normal, hText]
        simp
      · rw [evalAll, hVal', hVal, Conj.asRead, Conj.holds]

theorem Alts.listed (a : Alts) :
    Listed .or a.normal evalAny fun val =>
      a.asRead.holds val := by
  cases a with
  | one c =>
      rcases c.listed.and_bracket with ⟨m, hRead, hVal⟩
      refine ⟨_, [], m, [], (List.append_nil _).symm, hRead, .nil,
        Or.inl ⟨rfl, rfl⟩, fun val => ?_⟩
      simp [evalAny, hVal, Alts.asRead, Alts.holds]
  | or c rest =>
      rcases c.listed.and_bracket with ⟨m, hRead, hVal⟩
      rcases rest.listed.split with
        ⟨first, more, m', ms, hText, hRead', hMore, -, hVal'⟩
      refine ⟨_, _, m, m' :: ms, ?_, hRead, .or hRead' hMore,
        Or.inr rfl, fun val => ?_⟩
      · rw [Alts.normal, hText]
        simp
      · rw [evalAny, hVal', hVal, Alts.asRead, Alts.holds]

end

end Mavis

end Soteria

------------------------------------------------------------
-- Clearing Brackets
------------------------------------------------------------

namespace Soteria

namespace Mavis

mutual

/- Taking the brackets off single members changes no value. -/
theorem optimize_eval (val : Test → Bool) (m : Cond) :
    (optimize m).eval val = m.eval val := by
  cases m with
  | test t => rfl
  | exclmark e =>
      rw [optimize, Cond.eval, Cond.eval, optimize_eval val e]
  | multi type es =>
      match es with
      | [] => cases type <;> rfl
      | [e] =>
          rw [optimize, eval_single, optimize_eval val e]
      | e :: e' :: es =>
          have hAll := optimizeAll_eval val (e :: e' :: es)
          cases type with
          | and =>
              rw [optimize, Cond.eval, Cond.eval, hAll.1]
              exact nofun
          | or =>
              rw [optimize, Cond.eval, Cond.eval, hAll.2]
              exact nofun

theorem optimizeAll_eval (val : Test → Bool) (es : List Cond) :
    evalAll val (optimizeAll es) = evalAll val es ∧
      evalAny val (optimizeAll es) = evalAny val es := by
  cases es with
  | nil => exact ⟨rfl, rfl⟩
  | cons e es =>
      have hHere := optimize_eval val e
      have hRest := optimizeAll_eval val es
      rw [optimizeAll, evalAll, evalAll, evalAny, evalAny, hHere,
        hRest.1, hRest.2]
      exact ⟨rfl, rfl⟩

end

/- A condition in brackets is parsed to the meaning of what is
   read, which is its own one if it negates no reference. -/
theorem condParse_holds
    (a : Alts) (rest : List Tok)
    (hFits : width (triple a.normal) < bufLimit + 5)
    (hDeep : a.depth ≤ ecMax) :
    ∃ m, condParse (.leftbra :: (a.toks ++ .rightbra :: rest)) =
        some (m, rest) ∧
      (∀ val, m.eval val = a.asRead.holds val) ∧
      (a.plain = true → ∀ val, m.eval val = a.holds val) := by
  rcases a.listed.or_bracket with ⟨m, hRead, hVal⟩
  have hTriple := reads_triple hRead
  have hEval : ∀ val,
      (optimize (.multi .or [.multi .or [m]])).eval val =
        a.asRead.holds val := by
    intro val
    rw [optimize_eval, eval_single, eval_single]
    exact hVal val
  refine ⟨optimize (.multi .or [.multi .or [m]]), ?_, hEval,
    fun hPlain val => ?_⟩
  · have hParse := hTriple (triple a.normal).length []
      (Nat.le_refl _)
    rw [List.append_nil] at hParse
    rw [condParse, normalize_alts a rest hFits hDeep]
    simp only [Option.bind_eq_bind, Option.bind_some, hParse]
  · rw [hEval, a.asRead_eq hPlain]

/- `a == "x" || b == "x" && c == "x"` -/
def mixed : Alts :=
  .or (.one (.compare "a" false false "x"))
    (.one (.and (.compare "b" false false "x")
      (.one (.compare "c" false false "x"))))

theorem condParse_holds_mixed :
    ∃ m, condParse (.leftbra :: (mixed.toks ++ [.rightbra])) =
        some (m, []) ∧
      ∀ val, m.eval val = mixed.holds val := by
  rcases condParse_holds mixed [] (by decide +kernel) (by decide)
    with ⟨m, hParse, _, hPlain⟩
  exact ⟨m, hParse, hPlain rfl⟩

end Mavis

end Soteria

------------------------------------------------------------
-- Conditions That Are Not Rewritten
------------------------------------------------------------

namespace Soteria

namespace Mavis

/- Whether the first operator of a bracket is `&&`. -/
def Conj.joined : Conj → Bool
| .one _ => false
| .and _ _ => true

def Alts.joined : Alts → Bool
| .one c => c.joined
| .or c _ => c.joined

mutual

/- The meaning where all members of a bracket are joined by its
   first operator. -/
def Term.flat (val : Test → Bool) : Term → Bool
| .compare lhs negated regex rhs =>
    val (compareTest lhs regex rhs) != negated
| .named time negated name =>
    val (namedTest time name) != negated
| .not t => !t.flat val
| .group alts =>
    if alts.joined then alts.flatAll val else alts.flatAny val

def Conj.flatAll (val : Test → Bool) : Conj → Bool
| .one t => t.flat val
| .and t rest => t.flat val && rest.flatAll val

def Conj.flatAny (val : Test → Bool) : Conj → Bool
| .one t => t.flat val
| .and t rest => t.flat val || rest.flatAny val

def Alts.flatAll (val : Test → Bool) : Alts → Bool
| .one c => c.flatAll val
| .or c rest => c.flatAll val && rest.flatAll val

def Alts.flatAny (val : Test → Bool) : Alts → Bool
| .one c => c.flatAny val
| .or c rest => c.flatAny val || rest.flatAny val

end

/- The members of a bracket that was not rewritten, the first
   operator being `&&` or not. -/
structure Flat
    (text : List Tok) (joined : Bool)
    (all any : (Test → Bool) → Bool) : Prop where
  split : ∃ first more m ms,
    text = first ++ more ∧ Reads first m ∧ Members more ms ∧
      (more = [] ∧ ms = [] ∧ joined = false ∨
        ∃ op, more.head? = some op ∧
          (op = .and ↔ joined = true)) ∧
      (∀ val, evalAll val (m :: ms) = all val) ∧
      ∀ val, evalAny val (m :: ms) = any val

theorem Flat.bracket
    {text : List Tok} {joined : Bool}
    {all any : (Test → Bool) → Bool}
    (h : Flat text joined all any) :
    ∃ m, Reads (.leftbra :: (text ++ [.rightbra])) m ∧
      ∀ val, m.eval val =
        if joined then all val else any val := by
  rcases h.split with
    ⟨first, more, m, ms, rfl, hRead, hMore, hHead, hAll, hAny⟩
  refine ⟨_, by
    rw [List.append_assoc]
    exact reads_bracket hRead hMore, fun val => ?_⟩
  rw [← hAll, ← hAny]
  rcases hHead with ⟨rfl, rfl, rfl⟩ | ⟨op, hOp, hJoined⟩
  · simp [eval_single, evalAny]
  · rw [groupType, hOp]
    cases joined with
    | true =>
        rw [hJoined.mpr rfl, if_pos rfl, if_pos rfl, Cond.eval]
    | false =>
        have hNot : ¬ (some op = some Tok.and) := by
          intro hEq
          have hTrue := hJoined.mp (Option.some.inj hEq)
          cases hTrue
        rw [if_neg hNot, if_neg nofun, Cond.eval]

@[simp] theorem Conj.joined_asRead (c : Conj) :
    c.asRead.joined = c.joined := by
  cases c with
  | one t => rfl
  | and t rest => rfl

@[simp] theorem Alts.joined_asRead (a : Alts) :
    a.asRead.joined = a.joined := by
  cases a with
  | one c => exact c.joined_asRead
  | or c rest => exact c.joined_asRead

mutual

theorem Term.readsFlat (t : Term) :
    ∃ m, Reads t.toks m ∧
      ∀ val, m.eval val = t.asRead.flat val := by
  cases t with
  | compare lhs negated regex rhs =>
      exact reads_compare lhs negated regex rhs
  | named time negated name =>
      rcases reads_named time negated name with
        ⟨m, hRead, hVal⟩
      refine ⟨m, hRead, fun val => ?_⟩
      rw [hVal, Term.asRead, Term.flat, Bool.bne_false]
  | not t =>
      rcases t.readsFlat with ⟨m, hRead, hVal⟩
      refine ⟨_, reads_exclmark hRead, fun val => ?_⟩
      rw [Cond.eval, hVal, Term.asRead, Term.flat]
  | group alts =>
      rcases alts.readsFlat.bracket with ⟨m, hRead, hVal⟩
      refine ⟨m, hRead, fun val => ?_⟩
      rw [hVal, Term.asRead, Term.flat, alts.joined_asRead]

theorem Conj.readsFlat (c : Conj) :
    Flat c.toks c.joined (fun val => c.asRead.flatAll val)
      (fun val => c.asRead.flatAny val) := by
  cases c with
  | one t =>
      rcases t.readsFlat with ⟨m, hRead, hVal⟩
      refine ⟨_, [], m, [], (List.append_nil _).symm, hRead, .nil,
        Or.inl ⟨rfl, rfl, rfl⟩, fun val => ?_, fun val => ?_⟩
      · simp [evalAll, hVal, Conj.asRead, Conj.flatAll]
      · simp [evalAny, hVal, Conj.asRead, Conj.flatAny]
  | and t rest =>
      rcases t.readsFlat with ⟨m, hRead, hVal⟩
      rcases rest.readsFlat.split with
        ⟨first, more, m', ms, hText, hRead', hMore, -, hAll,
          hAny⟩
      refine ⟨_, _, m, m' :: ms, ?_, hRead, .and hRead' hMore,
        Or.inr ⟨.and, rfl, by simp [Conj.joined]⟩,
        fun val => ?_, fun val => ?_⟩
      · rw [Conj.toks, hText]
      · rw [evalAll, hAll, hVal, Conj.asRead, Conj.flatAll]
      · rw [evalAny, hAny, hVal, Conj.asRead, Conj.flatAny]

theorem Alts.readsFlat (a : Alts) :
    Flat a.toks a.joined (fun val => a.asRead.flatAll val)
      (fun val => a.asRead.flatAny val) := by
  cases a with
  | one c => exact c.readsFlat
  | or c rest =>
      rcases c.readsFlat.split with
        ⟨first, more, m, ms, hText, hRead, hMore, hHead, hAll,
          hAny⟩
      rcases rest.readsFlat.split with
        ⟨first', more', m', ms', hText', hRead', hMore', -,
          hAll', hAny'⟩
      refine ⟨first, more ++ .or :: (first' ++ more'), m,
        ms ++ m' :: ms', ?_, hRead,
        hMore.append (.or hRead' hMore'), Or.inr ?_,
        fun val => ?_, fun val => ?_⟩
      · rw [Alts.toks, hText, hText', List.append_assoc]
      · rcases hHead with ⟨rfl, -, hJoined⟩ | ⟨op, hOp, hJoined⟩
        · exact ⟨.or, rfl, by simp [Alts.joined, hJoined]⟩
        · refine ⟨op, ?_, hJoined⟩
          rw [List.head?_append, hOp]
          rfl
      · have hRest := hAll' val
        rw [← List.cons_append, evalAll_append, hAll, hRest,
          Alts.asRead, Alts.flatAll]
      · have hRest := hAny' val
        rw [← List.cons_append, evalAny_append, hAny, hRest,
          Alts.asRead, Alts.flatAny]

end

mutual

/- No bracket has both operators. -/
def Term.uniform : Term → Bool
| .compare .. => true
| .named .. => true
| .not t => t.uniform
| .group alts => alts.uniform

def Conj.uniform : Conj → Bool
| .one t => t.uniform
| .and t rest => t.uniform && rest.uniform

/- Every conjunction has one operand. -/
def Alts.singles : Alts → Bool
| .one c => !c.joined && c.uniform
| .or c rest => (!c.joined && c.uniform) && rest.singles

def Alts.uniform : Alts → Bool
| .one c => c.uniform
| .or c rest => (!c.joined && c.uniform) && rest.singles

end

mutual

theorem Term.flat_eq
    (val : Test → Bool) (t : Term) (h : t.uniform = true) :
    t.flat val = t.holds val := by
  cases t with
  | compare lhs negated regex rhs => rfl
  | named time negated name => rfl
  | not t =>
      rw [Term.flat, Term.holds, t.flat_eq val h]
  | group alts =>
      cases alts with
      | one c =>
          rw [Term.uniform, Alts.uniform] at h
          rw [Term.flat, Term.holds, Alts.holds, Alts.flatAll,
            Alts.flatAny, ← c.flatAll_eq val h]
          cases c with
          | one t => simp [Conj.flatAll, Conj.flatAny]
          | and t rest => rfl
      | or c rest =>
          rw [Term.uniform, Alts.uniform, Bool.and_eq_true,
            Bool.and_eq_true, Bool.not_eq_true'] at h
          have hHere := c.flatAll_eq val h.1.2
          rw [Term.flat, Alts.joined, h.1.1, if_neg nofun,
            Term.holds, Alts.holds, Alts.flatAny,
            rest.flatAny_eq val h.2, ← hHere]
          cases c with
          | one t => rfl
          | and t rest' => cases h.1.1

theorem Conj.flatAll_eq
    (val : Test → Bool) (c : Conj) (h : c.uniform = true) :
    c.flatAll val = c.holds val := by
  cases c with
  | one t => exact t.flat_eq val h
  | and t rest =>
      rw [Conj.uniform, Bool.and_eq_true] at h
      rw [Conj.flatAll, Conj.holds, t.flat_eq val h.1,
        rest.flatAll_eq val h.2]

theorem Alts.flatAny_eq
    (val : Test → Bool) (a : Alts) (h : a.singles = true) :
    a.flatAny val = a.holds val := by
  cases a with
  | one c =>
      rw [Alts.singles, Bool.and_eq_true,
        Bool.not_eq_true'] at h
      rw [Alts.flatAny, Alts.holds, ← c.flatAll_eq val h.2]
      cases c with
      | one t => rfl
      | and t rest => cases h.1
  | or c rest =>
      rw [Alts.singles, Bool.and_eq_true, Bool.and_eq_true,
        Bool.not_eq_true'] at h
      rw [Alts.flatAny, Alts.holds, rest.flatAny_eq val h.2,
        ← c.flatAll_eq val h.1.2]
      cases c with
      | one t => rfl
      | and t rest' => cases h.1.1

end

/- A condition that starts with `!` and a bracket: in every
   bracket of what is read the first operator counts for all
   members, which is the meaning where no bracket has both and
   no reference is negated. -/
theorem condParse_negated
    (a : Alts) (rest : List Tok) :
    (∃ m, condParse (.exclmark :: .leftbra ::
          (a.toks ++ .rightbra :: rest)) = some (m, rest) ∧
      ∀ val, m.eval val = !(Term.group a.asRead).flat val) ∧
    (a.uniform = true → a.plain = true → ∀ val,
      (Term.group a.asRead).flat val = a.holds val) := by
  refine ⟨?_, fun h hPlain val => ?_⟩
  · rcases (Term.not (.group a)).readsFlat with
      ⟨m, hRead, hVal⟩
    refine ⟨m, ?_, fun val => ?_⟩
    · have hText : (Term.not (.group a)).toks ++ rest =
          .exclmark :: .leftbra ::
            (a.toks ++ .rightbra :: rest) := by
        simp [Term.toks]
      have hParse := hRead
        ((Term.not (.group a)).toks ++ rest).length rest
        (by simp)
      rw [hText] at hParse
      rw [condParse]
      · exact hParse
      · exact nofun
    · rw [hVal, Term.asRead, Term.asRead, Term.flat]
  · rw [a.asRead_eq hPlain]
    exact Term.flat_eq val (.group a) h

end Mavis

end Soteria
