import Mathlib.Data.Fintype.Card
import Mathlib.Data.List.Nodup

/-
  The scripts of the daemon.

  The statements of a script change the session or give a
  verdict. A script may evaluate ACLs, as statements and in
  conditions; an ACL that is being evaluated already is passed
  over, so that ACLs that refer to themselves come to an end.
  Hosts and profiles have scripts of their own and those of
  their parents.

  Key definitions include:
    * `TacPlus.Stmt`, `TacPlus.Guard`
    * `TacPlus.tacScriptEval`, `TacPlus.evalTacAcl`
    * `TacPlus.evalTacAcl_eq`, `TacPlus.evalTacAcl_script`
    * `TacPlus.evalChain`, `TacPlus.evalChain_order`
-/

------------------------------------------------------------
-- Scripts
------------------------------------------------------------

namespace Soteria

namespace TacPlus

/- The values of `enum token` that a script returns. -/
inductive Token where
| unknown
| ret
| permit
| deny
deriving DecidableEq

/- Whether a verdict is one of `S_permit` and `S_deny`. -/
def Token.decisive : Token → Bool
| permit => true
| deny => true
| _ => false

variable {n : Nat} {T A σ : Type}

/- `struct mavis_cond`, with the ACLs by their place in the
   table. -/
inductive Guard (n : Nat) (T : Type) where
| test (t : T)
| acl (x : Fin n)
| exclmark (e : Guard n T)
| and (es : List (Guard n T))
| or (es : List (Guard n T))

/- `struct mavis_action`. `act` is any statement that only
   changes the session. -/
inductive Stmt (n : Nat) (T A : Type) where
| ret
| permit
| deny
| act (a : A)
| cond (c : Guard n T) (body els : List (Stmt n T A))
| acl (x : Fin n)

abbrev Script (n : Nat) (T A : Type) := List (Stmt n T A)

/- The tests and actions of a session. -/
structure Meaning (T A σ : Type) where
  holds : T → σ → Bool
  act : A → σ → σ

/- How an ACL is evaluated. -/
abbrev AclEval (n : Nat) (σ : Type) := Fin n → σ → Token × σ

mutual

/- `tac_script_cond_eval` -/
def Guard.eval (m : Meaning T A σ) (acl : AclEval n σ) :
    Guard n T → σ → Bool × σ
| .test t, s => (m.holds t s, s)
| .acl x, s => ((acl x s).1 = .permit, (acl x s).2)
| .exclmark e, s => (!(e.eval m acl s).1, (e.eval m acl s).2)
| .and es, s => evalEvery m acl es s
| .or es, s => evalSome m acl es s

def evalEvery (m : Meaning T A σ) (acl : AclEval n σ) :
    List (Guard n T) → σ → Bool × σ
| [], s => (true, s)
| e :: es, s =>
    if (e.eval m acl s).1 then evalEvery m acl es (e.eval m acl s).2
    else (false, (e.eval m acl s).2)

def evalSome (m : Meaning T A σ) (acl : AclEval n σ) :
    List (Guard n T) → σ → Bool × σ
| [], s => (false, s)
| e :: es, s =>
    if (e.eval m acl s).1 then (true, (e.eval m acl s).2)
    else evalSome m acl es (e.eval m acl s).2

end

mutual

/- One turn of `tac_script_eval_r`. -/
def Stmt.eval (m : Meaning T A σ) (acl : AclEval n σ) :
    Stmt n T A → σ → Token × σ
| .ret, s => (.ret, s)
| .permit, s => (.permit, s)
| .deny, s => (.deny, s)
| .act a, s => (.unknown, m.act a s)
| .cond c body els, s =>
    if (c.eval m acl s).1 then
      evalScript m acl body (c.eval m acl s).2
    else evalScript m acl els (c.eval m acl s).2
| .acl x, s => acl x s

/- `tac_script_eval_r`, for an evaluation of the ACLs. -/
def evalScript (m : Meaning T A σ) (acl : AclEval n σ) :
    Script n T A → σ → Token × σ
| [], s => (.unknown, s)
| stmt :: rest, s =>
    if (stmt.eval m acl s).1 = .unknown then
      evalScript m acl rest (stmt.eval m acl s).2
    else stmt.eval m acl s

end

/- The verdict of an ACL, or none. -/
def settle (r : Token × σ) : Token × σ :=
  if r.1.decisive then r else (.unknown, r.2)

/- `eval_tac_acl`, with the ACLs that are `visited`, where ACLs
   may be nested to some depth. -/
def evalAcl
    (m : Meaning T A σ) (scripts : Fin n → Script n T A) :
    Nat → List (Fin n) → AclEval n σ
| 0, _, _, s => (.unknown, s)
| depth + 1, visited, x, s =>
    if x ∈ visited then (.unknown, s)
    else
      settle (evalScript m
        (evalAcl m scripts depth (x :: visited)) (scripts x) s)

/- `eval_tac_acl`. No ACL is nested in itself, so that there are
   no more on the way than in the table. -/
def evalTacAcl
    (m : Meaning T A σ) (scripts : Fin n → Script n T A)
    (visited : List (Fin n)) : AclEval n σ :=
  evalAcl m scripts (n + 1) visited

/- `tac_script_eval_r` -/
def tacScriptEval
    (m : Meaning T A σ) (scripts : Fin n → Script n T A) :
    Script n T A → σ → Token × σ :=
  evalScript m (evalTacAcl m scripts [])

end TacPlus

end Soteria

------------------------------------------------------------
-- ACLs
------------------------------------------------------------

namespace Soteria

namespace TacPlus

variable {n : Nat} {T A σ : Type}
variable {m : Meaning T A σ} {scripts : Fin n → Script n T A}

mutual

/- Whether a condition evaluates an ACL. -/
def Guard.Calls (y : Fin n) : Guard n T → Prop
| .test _ => False
| .acl x => x = y
| .exclmark e => e.Calls y
| .and es => guardsCall y es
| .or es => guardsCall y es

def guardsCall (y : Fin n) : List (Guard n T) → Prop
| [] => False
| e :: es => e.Calls y ∨ guardsCall y es

end

mutual

def Stmt.Calls (y : Fin n) : Stmt n T A → Prop
| .ret => False
| .permit => False
| .deny => False
| .act _ => False
| .cond c body els =>
    c.Calls y ∨ scriptCalls y body ∨ scriptCalls y els
| .acl x => x = y

/- Whether a script evaluates an ACL. -/
def scriptCalls (y : Fin n) : Script n T A → Prop
| [] => False
| stmt :: rest => stmt.Calls y ∨ scriptCalls y rest

end

mutual

theorem Guard.eval_congr
    {f g : AclEval n σ} (c : Guard n T)
    (h : ∀ y, c.Calls y → f y = g y) :
    c.eval m f = c.eval m g := by
  funext s
  cases c with
  | test t => rfl
  | acl x => simp only [Guard.eval, h x rfl]
  | exclmark e =>
      simp only [Guard.eval, e.eval_congr h]
  | and es => exact congrFun (evalEvery_congr es h) s
  | or es => exact congrFun (evalSome_congr es h) s

theorem evalEvery_congr
    {f g : AclEval n σ} (es : List (Guard n T))
    (h : ∀ y, guardsCall y es → f y = g y) :
    evalEvery m f es = evalEvery m g es := by
  funext s
  cases es with
  | nil => rfl
  | cons e es =>
      simp only [evalEvery,
        e.eval_congr fun y hy => h y (Or.inl hy),
        evalEvery_congr es fun y hy => h y (Or.inr hy)]

theorem evalSome_congr
    {f g : AclEval n σ} (es : List (Guard n T))
    (h : ∀ y, guardsCall y es → f y = g y) :
    evalSome m f es = evalSome m g es := by
  funext s
  cases es with
  | nil => rfl
  | cons e es =>
      simp only [evalSome,
        e.eval_congr fun y hy => h y (Or.inl hy),
        evalSome_congr es fun y hy => h y (Or.inr hy)]

end

mutual

theorem Stmt.eval_congr
    {f g : AclEval n σ} (stmt : Stmt n T A)
    (h : ∀ y, stmt.Calls y → f y = g y) :
    stmt.eval m f = stmt.eval m g := by
  funext s
  cases stmt with
  | ret => rfl
  | permit => rfl
  | deny => rfl
  | act a => rfl
  | cond c body els =>
      simp only [Stmt.eval,
        c.eval_congr fun y hy => h y (Or.inl hy),
        evalScript_congr body fun y hy => h y (Or.inr (Or.inl hy)),
        evalScript_congr els fun y hy => h y (Or.inr (Or.inr hy))]
  | acl x => exact congrFun (h x rfl) s

/- A script only depends on the ACLs that it evaluates. -/
theorem evalScript_congr
    {f g : AclEval n σ} (script : Script n T A)
    (h : ∀ y, scriptCalls y script → f y = g y) :
    evalScript m f script = evalScript m g script := by
  funext s
  cases script with
  | nil => rfl
  | cons stmt rest =>
      simp only [evalScript,
        stmt.eval_congr fun y hy => h y (Or.inl hy),
        evalScript_congr rest fun y hy => h y (Or.inr hy)]

end

/- Any depth is as good that leaves room for the ACLs that are
   not visited. -/
theorem evalAcl_depth
    {visited : List (Fin n)} (hNodup : visited.Nodup)
    (d d' : Nat) (hd : n + 1 ≤ d + visited.length)
    (hd' : n + 1 ≤ d' + visited.length) :
    evalAcl m scripts d visited = evalAcl m scripts d' visited := by
  have hLength : visited.length ≤ n := by
    have h := hNodup.length_le_card
    rwa [Fintype.card_fin] at h
  induction d generalizing visited d' with
  | zero => omega
  | succ d ih =>
      cases d' with
      | zero => omega
      | succ d' =>
          funext x s
          rw [evalAcl, evalAcl]
          by_cases hx : x ∈ visited
          · rw [if_pos hx, if_pos hx]
          · have hNext : (x :: visited).Nodup :=
              List.nodup_cons.mpr ⟨hx, hNodup⟩
            have hFits : (x :: visited).length ≤ n := by
              have h := hNext.length_le_card
              rwa [Fintype.card_fin] at h
            rw [if_neg hx, if_neg hx, ih hNext d'
              (by rw [List.length_cons]; omega)
              (by rw [List.length_cons]; omega) hFits]

/- The evaluation of an ACL comes to an end: it is the verdict of
   its script, in which the ACLs on the way are passed over. -/
theorem evalTacAcl_eq
    (m : Meaning T A σ) (scripts : Fin n → Script n T A)
    {visited : List (Fin n)} (hNodup : visited.Nodup)
    (x : Fin n) (s : σ) :
    evalTacAcl m scripts visited x s =
      if x ∈ visited then (.unknown, s)
      else settle (evalScript m
        (evalTacAcl m scripts (x :: visited)) (scripts x) s) := by
  rw [evalTacAcl, evalAcl]
  by_cases hx : x ∈ visited
  · rw [if_pos hx, if_pos hx]
  · have hNext : (x :: visited).Nodup :=
      List.nodup_cons.mpr ⟨hx, hNodup⟩
    rw [if_neg hx, if_neg hx, evalTacAcl,
      evalAcl_depth hNext n (n + 1)
        (by rw [List.length_cons]; omega) (by omega)]

/- Where no ACL refers to itself, the ACLs on the way make no
   difference. -/
theorem evalTacAcl_visited
    {rank : Fin n → Nat}
    (hRank : ∀ x y, scriptCalls y (scripts x) → rank y < rank x)
    {x : Fin n} {visited : List (Fin n)}
    (hNodup : visited.Nodup)
    (hAbove : ∀ y ∈ visited, rank x < rank y) :
    evalTacAcl m scripts visited x =
      evalTacAcl m scripts [] x := by
  induction hr : rank x using Nat.strong_induction_on
    generalizing x visited with
  | _ r ih =>
    subst hr
    have hx : x ∉ visited := fun h =>
      Nat.lt_irrefl _ (hAbove x h)
    have hBody : evalScript m
        (evalTacAcl m scripts (x :: visited)) (scripts x) =
        evalScript m (evalTacAcl m scripts [x]) (scripts x) := by
      apply evalScript_congr
      intro y hy
      have hLt := hRank x y hy
      rw [ih _ hLt (List.nodup_cons.mpr ⟨hx, hNodup⟩) _ rfl,
        ih _ hLt (List.nodup_singleton x) _ rfl]
      · intro z hz
        rw [List.mem_singleton.mp hz]
        exact hLt
      · intro z hz
        rcases List.mem_cons.mp hz with rfl | hz
        · exact hLt
        · exact Nat.lt_trans hLt (hAbove z hz)
    funext s
    rw [evalTacAcl_eq m scripts hNodup,
      evalTacAcl_eq m scripts List.nodup_nil, if_neg hx,
      if_neg List.not_mem_nil, hBody]

/- Where no ACL refers to itself, an ACL is its script. -/
theorem evalTacAcl_script
    (m : Meaning T A σ) (scripts : Fin n → Script n T A)
    (rank : Fin n → Nat)
    (hRank : ∀ x y, scriptCalls y (scripts x) → rank y < rank x)
    (x : Fin n) (s : σ) :
    evalTacAcl m scripts [] x s =
      settle (tacScriptEval m scripts (scripts x) s) := by
  rw [evalTacAcl_eq m scripts List.nodup_nil,
    if_neg List.not_mem_nil, tacScriptEval]
  have hBody : evalScript m (evalTacAcl m scripts [x])
      (scripts x) =
      evalScript m (evalTacAcl m scripts []) (scripts x) := by
    apply evalScript_congr
    intro y hy
    apply evalTacAcl_visited hRank (List.nodup_singleton x)
    intro z hz
    rw [List.mem_singleton.mp hz]
    exact hRank x y hy
  rw [hBody]

/- An ACL that asks another one in a condition. -/
theorem evalTacAcl_script_nested :
    let m : Meaning Unit Unit Nat :=
      { holds := fun _ _ => true, act := fun _ k => k + 1 }
    let acls : Fin 2 → Script 2 Unit Unit := fun x =>
      if x = 0 then [.deny]
      else [.cond (.acl 0) [.deny] [.act (), .permit]]
    evalTacAcl m acls [] 1 0 = (.permit, 1) := by
  intro m acls
  have hRank : ∀ x y, scriptCalls y (acls x) → y.val < x.val := by
    intro x y hCalls
    by_cases hx : x = 0
    · simp [acls, hx, scriptCalls, Stmt.Calls] at hCalls
    · have hy : y = 0 := by
        simpa [acls, hx, scriptCalls, Stmt.Calls, Guard.Calls,
          eq_comm] using hCalls
      rw [hy]
      exact Fin.pos_iff_ne_zero.mpr hx
  rw [evalTacAcl_script m acls Fin.val hRank]
  rfl

end TacPlus

end Soteria

------------------------------------------------------------
-- Parents
------------------------------------------------------------

namespace Soteria

namespace TacPlus

/- A host or a profile and the ones above it, as far as scripts
   are concerned. -/
structure Link (S : Type) where
  script : S
  skipParentScript : Bool

/- The body of `author_eval_host`, `author_eval_profile` and
   `eval_profile_acl`, from a member of the chain on. -/
def evalChain
    {S σ : Type} (eval : S → σ → Token × σ)
    (parentFirst : Bool) :
    List (Link S) → σ → Token × σ
| [], s => (.unknown, s)
| l :: parents, s =>
    let r :=
      if parentFirst && !l.skipParentScript then
        evalChain eval parentFirst parents s
      else (.unknown, s)
    let r := if !r.1.decisive then eval l.script r.2 else r
    if !parentFirst && !r.1.decisive && !l.skipParentScript then
      evalChain eval parentFirst parents r.2
    else r

/- The scripts, one after another until there is a verdict. -/
def evalAll {S σ : Type} (eval : S → σ → Token × σ) :
    List S → σ → Token × σ
| [], s => (.unknown, s)
| script :: rest, s =>
    if (eval script s).1.decisive then eval script s
    else evalAll eval rest (eval script s).2

/- The scripts up to the one that skips its parents. -/
def ownScripts {S : Type} : List (Link S) → List S
| [] => []
| l :: parents =>
    if l.skipParentScript then [l.script]
    else l.script :: ownScripts parents

/- `tac_host`, its parents, and `tac_profile`, as far as scripts
   are concerned. -/
structure HostScript (n : Nat) (T A : Type) where
  action : Script n T A
  skipParentScript : Bool

structure ProfileScript (n : Nat) (T A : Type) where
  action : Script n T A
  acl : Script n T A
  skipParentScript : Bool

variable {n : Nat} {T A σ : Type}

/- `author_eval_host` -/
def authorEvalHost
    (m : Meaning T A σ) (scripts : Fin n → Script n T A)
    (parentFirst : Bool) (hosts : List (HostScript n T A)) :
    σ → Token × σ :=
  evalChain (tacScriptEval m scripts) parentFirst
    (hosts.map fun h => ⟨h.action, h.skipParentScript⟩)

/- `author_eval_profile` -/
def authorEvalProfile
    (m : Meaning T A σ) (scripts : Fin n → Script n T A)
    (parentFirst : Bool) (profiles : List (ProfileScript n T A)) :
    σ → Token × σ :=
  evalChain (tacScriptEval m scripts) parentFirst
    (profiles.map fun p => ⟨p.action, p.skipParentScript⟩)

/- `eval_profile_acl` -/
def evalProfileAcl
    (m : Meaning T A σ) (scripts : Fin n → Script n T A)
    (parentFirst : Bool) (profiles : List (ProfileScript n T A)) :
    σ → Token × σ :=
  evalChain (tacScriptEval m scripts) parentFirst
    (profiles.map fun p => ⟨p.acl, p.skipParentScript⟩)

theorem evalAll_append
    {S : Type} (eval : S → σ → Token × σ)
    (xs ys : List S) (s : σ) :
    evalAll eval (xs ++ ys) s =
      if (evalAll eval xs s).1.decisive then evalAll eval xs s
      else evalAll eval ys (evalAll eval xs s).2 := by
  induction xs generalizing s with
  | nil => rfl
  | cons x xs ih =>
      rw [List.cons_append, evalAll, evalAll]
      by_cases hx : (eval x s).1.decisive = true
      · rw [if_pos hx, if_pos hx, if_pos hx]
      · rw [if_neg hx, if_neg hx, ih]

@[simp] theorem decisive_unknown :
    Token.unknown.decisive = false :=
  rfl

theorem settle_of_decisive
    {r : Token × σ} (h : r.1.decisive = true) : settle r = r := by
  rw [settle, if_pos h]

theorem settle_of_not
    {r : Token × σ} (h : ¬r.1.decisive = true) :
    settle r = (.unknown, r.2) := by
  rw [settle, if_neg h]

@[simp] theorem settle_snd (r : Token × σ) :
    (settle r).2 = r.2 := by
  rw [settle]
  split <;> rfl

@[simp] theorem settle_decisive (r : Token × σ) :
    (settle r).1.decisive = r.1.decisive := by
  by_cases h : r.1.decisive = true
  · rw [settle_of_decisive h]
  · rw [settle_of_not h]
    simp only [Bool.not_eq_true] at h
    rw [h]
    rfl

theorem settle_evalAll_singleton
    {S : Type} (eval : S → σ → Token × σ) (script : S) (s : σ) :
    settle (evalAll eval [script] s) = settle (eval script s) := by
  rw [evalAll]
  by_cases hOwn : (eval script s).1.decisive = true
  · rw [if_pos hOwn]
  · rw [if_neg hOwn, settle_of_not hOwn]
    rfl

theorem evalChain_upwards
    {S : Type} (eval : S → σ → Token × σ)
    (chain : List (Link S)) (s : σ) :
    settle (evalChain eval false chain s) =
      settle (evalAll eval (ownScripts chain) s) := by
  induction chain generalizing s with
  | nil => rfl
  | cons l parents ih =>
      simp only [evalChain, ownScripts, Bool.false_and,
        Bool.false_eq_true, if_false, Bool.not_false,
        Bool.true_and, decisive_unknown, if_true]
      cases hSkip : l.skipParentScript with
      | true =>
          simp only [Bool.not_true, Bool.and_false,
            Bool.false_eq_true, if_false, if_true]
          exact (settle_evalAll_singleton eval l.script s).symm
      | false =>
          simp only [Bool.not_false, Bool.and_true,
            Bool.false_eq_true, if_false, evalAll]
          by_cases hOwn : (eval l.script s).1.decisive = true
          · rw [hOwn]
            rfl
          · simp only [Bool.not_eq_true] at hOwn
            rw [hOwn]
            exact ih _

theorem evalChain_downwards
    {S : Type} (eval : S → σ → Token × σ)
    (chain : List (Link S)) (s : σ) :
    settle (evalChain eval true chain s) =
      settle (evalAll eval (ownScripts chain).reverse s) := by
  induction chain generalizing s with
  | nil => rfl
  | cons l parents ih =>
      simp only [evalChain, ownScripts, Bool.true_and,
        Bool.not_true, Bool.false_and, Bool.false_eq_true,
        if_false]
      cases hSkip : l.skipParentScript with
      | true =>
          simp only [Bool.not_true, Bool.false_eq_true,
            if_false, if_true, List.reverse_singleton,
            decisive_unknown, Bool.not_false]
          exact (settle_evalAll_singleton eval l.script s).symm
      | false =>
          simp only [Bool.not_false, if_true,
            Bool.false_eq_true, if_false, List.reverse_cons]
          -- the parents give the same verdict and session
          have hAbove := ih s
          have hSame := congrArg (fun r => r.1.decisive) hAbove
          have hState := congrArg Prod.snd hAbove
          simp only [settle_decisive, settle_snd]
            at hSame hState
          rw [evalAll_append, ← hSame, ← hState]
          by_cases hTop : (evalChain eval true parents
              s).1.decisive = true
          · rw [hTop]
            simpa using hAbove
          · simp only [Bool.not_eq_true] at hTop
            rw [hTop]
            simp only [Bool.not_false, if_true,
              Bool.false_eq_true, if_false]
            exact (settle_evalAll_singleton eval l.script _).symm

/- A chain of parents is the scripts in one order: from the
   bottom up, or from the top down where parents come first. -/
theorem evalChain_order
    {S : Type} (eval : S → σ → Token × σ) (parentFirst : Bool)
    (chain : List (Link S)) (s : σ) :
    settle (evalChain eval parentFirst chain s) =
      settle (evalAll eval
        (if parentFirst then (ownScripts chain).reverse
          else ownScripts chain) s) := by
  cases parentFirst with
  | false => exact evalChain_upwards eval chain s
  | true => exact evalChain_downwards eval chain s

/- The scripts of hosts, and both kinds of scripts of profiles,
   are evaluated in that order. -/
theorem authorEval_order
    (m : Meaning T A σ) (scripts : Fin n → Script n T A)
    (parentFirst : Bool) (hosts : List (HostScript n T A))
    (profiles : List (ProfileScript n T A)) (s : σ) :
    let inOrder := fun chain : List (Link (Script n T A)) =>
      settle (evalAll (tacScriptEval m scripts)
        (if parentFirst then (ownScripts chain).reverse
          else ownScripts chain) s)
    settle (authorEvalHost m scripts parentFirst hosts s) =
        inOrder (hosts.map fun h =>
          ⟨h.action, h.skipParentScript⟩) ∧
      settle (authorEvalProfile m scripts parentFirst profiles
          s) =
        inOrder (profiles.map fun p =>
          ⟨p.action, p.skipParentScript⟩) ∧
      settle (evalProfileAcl m scripts parentFirst profiles s) =
        inOrder (profiles.map fun p =>
          ⟨p.acl, p.skipParentScript⟩) :=
  ⟨evalChain_order _ _ _ _, evalChain_order _ _ _ _,
    evalChain_order _ _ _ _⟩

end TacPlus

end Soteria
