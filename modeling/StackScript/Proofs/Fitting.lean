import StackScript.Proofs.Heights

/-!
# Code that fits together

* `FitsFor` and `Fits`: from a place in a function on, wherever control goes, every instruction
  stands in the function's code and finds the values that it takes.
* `StmtCode.fits`: a statement fits if what follows it does, and what follows the loops around it.
* `FunctionCode.fits`, `ProgramCode.fits`: all code of a program fits.

A loop goes back to its start, so what follows its body is the loop itself.  That is why `FitsFor`
counts instructions: a loop that fits for `n` of them is followed by its body for `n + 1`.
-/

namespace StackScript.Assembly

open Typing Bytecode Host Syntax Machine

section Fits

variable (L : Layout) (strict : Prop) (r : Room) (lo hi : Nat)

/-- The code fits at a place and a height for so many instructions. -/
def FitsFor : Nat → Nat → Nat → Prop
  | 0, _, _ => True
  | n + 1, a, k => lo ≤ a ∧ a < hi ∧ OkAt L strict r (FitsFor n) a k

/-- The code fits at a place and a height. -/
def Fits (a k : Nat) : Prop := ∀ n, FitsFor L strict r lo hi n a k

end Fits

variable {L : Layout} {strict : Prop} {r : Room} {lo hi : Nat}

theorem FitsFor.of_succ {n a k : Nat} (h : FitsFor L strict r lo hi (n + 1) a k) :
    FitsFor L strict r lo hi n a k := by
  induction n generalizing a k with
  | zero => trivial
  | succ n ih => exact ⟨h.1, h.2.1, h.2.2.mono fun _ _ h => ih h⟩

theorem FitsFor.of_le {m n a k : Nat} (hmn : m ≤ n) (h : FitsFor L strict r lo hi n a k) :
    FitsFor L strict r lo hi m a k := by
  induction hmn with
  | refl => exact h
  | step _ ih => exact ih h.of_succ

/-- Values below those that the code takes do no harm. -/
theorem FitsFor.more {n a k : Nat} (h : FitsFor L strict r lo hi n a k) (i : Nat) :
    FitsFor L strict r lo hi n a (k + i) := by
  induction n generalizing a k with
  | zero => trivial
  | succ n ih => exact ⟨h.1, h.2.1, h.2.2.shift i fun _ _ h => ih h⟩

theorem FitsFor.goes_back (n : Nat) : Back L strict r (FitsFor L strict r lo hi n) lo hi := by
  intro a k hlo hhi h
  exact FitsFor.of_succ ⟨hlo, hhi, h⟩

namespace Fits

variable {a k : Nat}

theorem okAt (h : Fits L strict r lo hi a k) : OkAt L strict r (Fits L strict r lo hi) a k :=
  OkAt.limit fun n => (h (n + 1)).2.2

theorem bounds (h : Fits L strict r lo hi a k) : lo ≤ a ∧ a < hi := ⟨(h 1).1, (h 1).2.1⟩

end Fits

/-! ### Where statements end -/

section Ends

variable {c c' : ScopeChain} {p q : Nat}

theorem InitialCode.le {declared found t : Ty} (h : InitialCode L declared found p q t) : p ≤ q := by
  cases h <;> omega

theorem DroppedCode.le {e : Expr} (h : DroppedCode L r c e p q) : p ≤ q := by
  cases h with
  | void code => exact Nat.le_of_lt code.lt
  | drop code => exact Nat.le_succ_of_le (Nat.le_of_lt code.lt)

theorem StepCode.le {step : Option Expr} (h : StepCode L r c step p q) : p ≤ q := by
  cases h with
  | none => exact Nat.le_refl _
  | some code => exact code.le

mutual

theorem StmtCode.le : {exits : List Nat} → {c : ScopeChain} → {s : Stmt} → {c' : ScopeChain} →
    {p q : Nat} → StmtCode L r exits c s c' p q → p ≤ q
  | _, _, _, _, _, _, .expr code => code.le
  | _, _, _, _, _, _, .declare _ _ _ _ => Nat.le_refl _
  | _, _, _, _, _, _, .initial _ _ code converted _ _ _ => by
    have hm := code.lt
    have hk := converted.le
    omega
  | _, _, _, _, _, _, .function _ => Nat.le_refl _
  | _, _, _, _, _, _, .block _ code => code.le
  | _, _, _, _, _, _, .cond choice first => by
    have hm := choice.lt
    have hk := first.le
    omega
  | _, _, _, _, _, _, .condElse choice first _ second => by
    have hm := choice.lt
    have hk := first.le
    have hq := second.le
    omega
  | _, _, _, _, _, _, .loop before choice code after _ => by
    have hs := before.le
    have hm := choice.lt
    have hk := code.le
    have hq := after.le
    omega
  | _, _, _, _, _, _, .brk _ _ _ => Nat.le_succ _
  | _, _, _, _, _, _, .stopNull _ _ _ => Nat.le_add_right _ _
  | _, _, _, _, _, _, .stop _ code _ => Nat.le_succ_of_le (Nat.le_of_lt code.lt)
  | _, _, _, _, _, _, .leaveNull _ _ => Nat.le_succ _
  | _, _, _, _, _, _, .leave _ code _ => Nat.le_succ_of_le (Nat.le_of_lt code.lt)
  | _, _, _, _, _, _, .empty => Nat.le_refl _

theorem StmtsCode.le : {exits : List Nat} → {c : ScopeChain} → {body : List Stmt} →
    {c' : ScopeChain} → {p q : Nat} → StmtsCode L r exits c body c' p q → p ≤ q
  | _, _, _, _, _, _, .nil => Nat.le_refl _
  | _, _, _, _, _, _, .cons first others => Nat.le_trans first.le others.le

theorem StartCode.le : {exits : List Nat} → {c : ScopeChain} → {s : Option Stmt} →
    {c' : ScopeChain} → {p q : Nat} → StartCode L r exits c s c' p q → p ≤ q
  | _, _, _, _, _, _, .none => Nat.le_refl _
  | _, _, _, _, _, _, .some code => code.le

end

theorem LastCode.le {s : Stmt} {kept : Bool} (h : LastCode L r c s c' p q kept) : p ≤ q := by
  cases h with
  | value code => exact Nat.le_of_lt code.lt
  | void code => exact Nat.le_of_lt code.lt
  | other _ code => exact code.le

theorem TopCode.le {body : List Stmt} {kept : Bool} (h : TopCode L r c body p q kept) : p ≤ q := by
  induction h with
  | nil => exact Nat.le_refl _
  | last code => exact code.le
  | cons first _ ih => exact Nat.le_trans first.le ih

end Ends

/-! ### Statements -/

/-- What a test of expressions has to demand of code that is looked at strictly. -/
structure Demands (strict : Prop) (ok : Expr → Bool) : Prop where
  binary : ∀ op left right, ok (.binary op left right) = true
  indexed : strict → ∀ e, ok e = true → e.indexed = true

theorem Demands.suits {ok : Expr → Bool} (h : Demands strict ok) (c : ScopeChain) (n : Nat) :
    Suits L c strict (FitsFor L strict r lo hi n) ok where
  binary := h.binary
  indexed := h.indexed
  direct := .inl fun _ _ hf => hf.more 1

section Statements

variable {ok : Expr → Bool} {c c' : ScopeChain} {p q n k : Nat}

theorem InitialCode.fits {declared found t : Ty} (h : InitialCode L declared found p q t)
    (hp : lo ≤ p) (hq : q ≤ hi) (hf : FitsFor L strict r lo hi n q (k + 1)) :
    FitsFor L strict r lo hi n p (k + 1) := by
  cases h with
  | any => exact hf
  | same => exact hf
  | convert _ _ conversion code =>
    exact FitsFor.goes_back n _ _ hp (by omega)
      (.plain code (.unary (Ty.conversion?_unary conversion)) rfl hf)

variable (hok : Demands strict ok)
include hok

theorem ValueCode.fits {e : Expr} {t : Ty} (h : ValueCode L r c e p q t) (he : e.every ok = true)
    (hp : lo ≤ p) (hq : q ≤ hi) (hf : FitsFor L strict r lo hi n q 1) :
    FitsFor L strict r lo hi n p 0 :=
  h.back (FitsFor.goes_back n) (hok.suits c n) he hp hq hf

theorem CondCode.fits {e : Expr} {no : Nat} (h : CondCode L r c e p q no) (he : e.every ok = true)
    (hp : lo ≤ p) (hq : q ≤ hi) (hf : FitsFor L strict r lo hi n q 0)
    (hno : FitsFor L strict r lo hi n no 0) : FitsFor L strict r lo hi n p 0 :=
  h.back (FitsFor.goes_back n) (hok.suits c n) he hp hq hf hno

theorem DroppedCode.fits {e : Expr} (h : DroppedCode L r c e p q) (he : e.every ok = true)
    (hp : lo ≤ p) (hq : q ≤ hi) (hf : FitsFor L strict r lo hi n q 0) :
    FitsFor L strict r lo hi n p 0 :=
  h.back (FitsFor.goes_back n) (hok.suits c n) he hp hq hf (hf.more 1)

theorem StepCode.fits {step : Option Expr} (h : StepCode L r c step p q) (he : every? ok step = true)
    (hp : lo ≤ p) (hq : q ≤ hi) (hf : FitsFor L strict r lo hi n q 0) :
    FitsFor L strict r lo hi n p 0 := by
  cases h with
  | none => exact hf
  | some code => exact code.fits hok he hp hq hf

omit hok

mutual

/-- A statement fits if what comes behind it fits, and what comes behind the loops around it. -/
theorem StmtCode.fits (hok : Demands strict ok) : {exits : List Nat} → {c : ScopeChain} → {s : Stmt} →
    {c' : ScopeChain} → {p q : Nat} → StmtCode L r exits c s c' p q → {n : Nat} → s.every ok = true → lo ≤ p → q ≤ hi →
    (∀ exit ∈ exits, FitsFor L strict r lo hi n exit 0) → FitsFor L strict r lo hi n q 0 →
    FitsFor L strict r lo hi n p 0
  | _, _, _, _, _, _, .expr code, n, he, hp, hq, _, hf => code.fits hok he hp hq hf
  | _, _, _, _, _, _, .declare _ _ _ _, n, _, _, _, _, hf => hf
  | _, _, _, _, _, _, .initial given _ code converted _ reached store, n, he, hp, hq, _, hf => by
    rw [Stmt.every, given] at he
    have hm := code.lt
    have hk := converted.le
    have hstore := FitsFor.goes_back n _ 1 (by omega) (by omega) (.store store reached rfl hf)
    exact code.fits hok he hp (by omega) (converted.fits (by omega) (by omega) hstore)
  | _, _, _, _, _, _, .function _, n, _, _, _, _, hf => hf
  | _, _, _, _, _, _, .block _ code, _, he, hp, hq, hexits, hf => code.fits hok he hp hq hexits hf
  | _, _, _, _, _, _, .cond choice first, n, he, hp, hq, hexits, hf => by
    simp only [Stmt.every, Bool.and_eq_true] at he
    have hm := choice.lt
    have hk := first.le
    exact choice.fits hok he.1.1 hp (by omega) (first.fits hok he.1.2 (by omega) hq hexits hf) hf
  | _, _, _, _, _, _, .condElse choice first skip second, n, he, hp, hq, hexits, hf => by
    simp only [Stmt.every, everyStmt?, Bool.and_eq_true] at he
    have hm := choice.lt
    have hk := first.le
    have hl := second.le
    -- behind the first arm the code jumps to where the second one ends
    have hskip := FitsFor.goes_back n _ 0 (by omega) (by omega) (.jump skip hf)
    exact choice.fits hok he.1.1 hp (by omega)
      (first.fits hok he.1.2 (by omega) (by omega) hexits hskip)
      (second.fits hok he.2 (by omega) hq hexits hf)
  | exits, _, _, _, _, _, @StmtCode.loop _ _ _ _ _ _ _ _ _ _ _ start m k q before choice code after back,
      n, he, hp, hq, hexits, hf => by
    simp only [Stmt.every, everyStmt?, every?, Bool.and_eq_true] at he
    have hs := before.le
    have hm := choice.lt
    have hk := code.le
    have hl := after.le
    -- A round more fits for an instruction more, the jump back.
    have hround : ∀ i, i ≤ n → FitsFor L strict r lo hi i start 0 := by
      intro i
      induction i with
      | zero => exact fun _ => trivial
      | succ i ih =>
        intro hin
        have hend := hf.of_le hin
        have hback : FitsFor L strict r lo hi (i + 1) q 0 :=
          ⟨by omega, by omega, .jump back (ih (by omega))⟩
        have hstep := after.fits hok he.1.2 (by omega) (by omega) hback
        refine choice.fits hok he.1.1.2 (by omega) (by omega) ?_ hend
        refine code.fits hok he.2 (by omega) (by omega) ?_ hstep
        intro exit hexit
        rcases List.mem_cons.1 hexit with rfl | hexit
        · exact hend
        · exact (hexits exit hexit).of_le hin
    exact before.fits hok he.1.1.1 hp (by omega) hexits (hround n (Nat.le_refl n))
  | _, _, _, _, _, _, .brk _ target jump, n, _, hp, hq, hexits, _ =>
    FitsFor.goes_back n _ 0 hp (by omega) (.jump jump (hexits _ (List.mem_of_getElem? target)))
  | _, _, _, _, p, _, .stopNull _ null stop, n, _, hp, hq, _, _ => by
    have hstop : FitsFor L strict r lo hi n (p + 1) 1 :=
      FitsFor.goes_back n _ 1 (by omega) (by omega) (.term stop rfl)
    exact FitsFor.goes_back n _ 0 hp (by omega) (.plain null .loadNull rfl hstop)
  | _, _, _, _, _, _, .stop _ code stop, n, he, hp, hq, _, _ => by
    have hm := code.lt
    refine code.fits hok he hp (by omega) ?_
    exact FitsFor.goes_back n _ 1 (by omega) (by omega) (.term stop rfl)
  | _, _, _, _, _, _, .leaveNull _ leave, n, _, hp, hq, _, _ =>
    FitsFor.goes_back n _ 0 hp (by omega) (.ret leave)
  | _, _, _, _, _, _, .leave _ code leave, n, he, hp, hq, _, _ => by
    have hm := code.lt
    refine code.fits hok he hp (by omega) ?_
    exact FitsFor.goes_back n _ 1 (by omega) (by omega) (.retWith leave rfl)
  | _, _, _, _, _, _, .empty, n, _, _, _, _, hf => hf

theorem StmtsCode.fits (hok : Demands strict ok) : {exits : List Nat} → {c : ScopeChain} → {body : List Stmt} →
    {c' : ScopeChain} → {p q : Nat} → StmtsCode L r exits c body c' p q → {n : Nat} →
    everyAll ok body = true → lo ≤ p → q ≤ hi →
    (∀ exit ∈ exits, FitsFor L strict r lo hi n exit 0) → FitsFor L strict r lo hi n q 0 →
    FitsFor L strict r lo hi n p 0
  | _, _, _, _, _, _, .nil, n, _, _, _, _, hf => hf
  | _, _, _, _, _, _, .cons first others, n, he, hp, hq, hexits, hf => by
    simp only [everyAll, Bool.and_eq_true] at he
    have hm := first.le
    have hk := others.le
    exact first.fits hok he.1 hp (by omega) hexits (others.fits hok he.2 (by omega) hq hexits hf)

theorem StartCode.fits (hok : Demands strict ok) : {exits : List Nat} → {c : ScopeChain} → {s : Option Stmt} →
    {c' : ScopeChain} → {p q : Nat} → StartCode L r exits c s c' p q → {n : Nat} →
    everyStmt? ok s = true → lo ≤ p → q ≤ hi →
    (∀ exit ∈ exits, FitsFor L strict r lo hi n exit 0) → FitsFor L strict r lo hi n q 0 →
    FitsFor L strict r lo hi n p 0
  | _, _, _, _, _, _, .none, _, _, _, _, _, hf => hf
  | _, _, _, _, _, _, .some code, _, he, hp, hq, hexits, hf => code.fits hok he hp hq hexits hf

end

include hok

theorem LastCode.fits {s : Stmt} {kept : Bool} (h : LastCode L r c s c' p q kept)
    (he : s.every ok = true) (hp : lo ≤ p) (hq : q ≤ hi)
    (hf : FitsFor L strict r lo hi n q (if kept then 1 else 0)) : FitsFor L strict r lo hi n p 0 := by
  cases h with
  | value code => exact code.fits hok he hp hq hf
  | void code last => exact DroppedCode.fits hok (.void code last) he hp hq hf
  | other _ code => exact code.fits hok he hp hq nofun hf

theorem TopCode.fits {body : List Stmt} {kept : Bool} (h : TopCode L r c body p q kept)
    (he : everyAll ok body = true) (hp : lo ≤ p) (hq : q ≤ hi)
    (hf : FitsFor L strict r lo hi n q (if kept then 1 else 0)) : FitsFor L strict r lo hi n p 0 := by
  induction h with
  | nil => exact hf
  | last code =>
    rw [everyAll, Bool.and_eq_true] at he
    exact code.fits hok he.1 hp hq hf
  | cons first others ih =>
    rw [everyAll, Bool.and_eq_true] at he
    have hm := first.le
    have hk := others.le
    exact first.fits hok he.1 hp (by omega) nofun (ih he.2 (by omega) hq hf)

/-! ### Functions and programs -/

/-- A function makes room for its variables, and the rest of its code fits. -/
theorem FunctionCode.fits {f : Function} {i : Nat} (h : FunctionCode L f i)
    (he : everyAll ok f.body = true) :
    ∃ slots : Nat, L.Has (L.start i) ⟨.allocStack, .int slots⟩ ∧
      Fits L strict ⟨f.params.length, slots⟩ (L.start i + 1) (L.stop i) (L.start i + 1) 0 := by
  cases h with
  | @function slots _ _ _ q _ room _ code leave stop _ =>
    refine ⟨slots, room, fun n => ?_⟩
    rw [stop]
    have hq := code.le
    refine code.fits hok he (Nat.le_refl _) (Nat.le_succ q) nofun ?_
    exact FitsFor.goes_back n _ 0 hq (Nat.lt_succ_self q) (.ret leave)

/-- The main stream makes room for the variables of the top level, and the rest of it fits. -/
theorem ProgramCode.fits {body : List Stmt} (h : ProgramCode L body) (he : everyAll ok body = true) :
    Fits L strict ⟨0, L.top⟩ 1 (L.stop 0) 1 0 := by
  obtain ⟨c, q, kept, -, code, -, hend⟩ := h.main
  have hq := code.le
  intro n
  rcases hend with ⟨rfl, last, stop⟩ | ⟨rfl, null, last, -, stop⟩
  · rw [stop]
    refine code.fits hok he (Nat.le_refl _) (by omega) ?_
    exact FitsFor.goes_back n _ 1 hq (by omega) (.term last rfl)
  · rw [stop]
    have hlast : FitsFor L strict ⟨0, L.top⟩ 1 (q + 2) n (q + 1) 1 :=
      FitsFor.goes_back n _ 1 (by omega) (by omega) (.term last rfl)
    refine code.fits hok he (Nat.le_refl _) (by omega) ?_
    exact FitsFor.goes_back n _ 0 hq (by omega) (.plain null .loadNull rfl hlast)

end Statements

end StackScript.Assembly
