import StackScript.Proofs.Copies
import StackScript.Proofs.Correctness
import StackScript.Proofs.Stores

/-!
# Runtime types

What the values of a program are, told by static types, and what the operations that the typing rules name
make of such values.

* `Value.HasType`: a value is of the runtime type that a static type names.
* `Gives`: an operation leaves a value of a type, or fails, but not for a value of the wrong type.
* `unary_gives`, `binary_gives`, `member_gives`, `element_gives`: the rules for operators, fields and elements
  keep what they say.
* `Safe`: an evaluation does not come upon a value of the wrong type, and ends with one of the right type.
-/

namespace StackScript

open Typing

/-! ### The types of values -/

/-- The value is of the runtime type that a static type names. -/
inductive Value.HasType : Value → Ty → Prop
  | null : HasType .null .null
  | bool (b : Bool) : HasType (.bool b) .bool
  | int (n : Int32) : HasType (.int n) .int
  | float (x : Float) : HasType (.float x) .float
  | str (s : String) : HasType (.str s) .string
  | list (r : Ref) : HasType (.ref .list r) .array
  | set (r : Ref) : HasType (.ref .set r) .set
  | object (r : Ref) : HasType (.ref .object r) .object
  | function (entry : Nat) : HasType (.function entry) .function
  | host (f : HostFunction) : HasType (.host f) .function

/-- The type is the one that the value shows. -/
theorem Value.HasType.typeName {v : Value} {t : Ty} (ht : v.HasType t) : v.typeName = t.name := by
  cases ht <;> rfl

/-- The copy of a value has the type of the value. -/
theorem Value.HasType.copied {v : Value} {t : Ty} (ht : v.HasType t) (h : Heap) : (h.deepCopy v).1.HasType t := by
  cases v with
  | ref shape r =>
    have hcopy : (h.deepCopy (.ref shape r)).1 = .ref shape h.cells.size := by
      rw [Heap.deepCopy, copyWithin_new rfl]
    rw [hcopy]
    cases ht <;> constructor
  | _ => exact ht

end StackScript

namespace StackScript.Machine

open Typing Bytecode Host

/-! ### Operations -/

/-- Is the fault about a value of the wrong type? -/
def Fault.isTypeError : Fault → Bool
  | .typeError _ _ => true
  | _ => false

theorem Fault.isTypeError_unplaced (f : Fault) : f.unplaced.isTypeError = f.isTypeError := by
  cases f <;> rfl

/-- An operation leaves a value of the type; or it fails, but not for a value of the wrong type. -/
def Gives (x : Exec Unit) (t : Ty) (s : State) : Prop :=
  match x s with
  | .ok _ s' => ∃ v, s'.stack.back? = some v ∧ v.HasType t
  | .error f _ => f.isTypeError = false

namespace Gives

variable {α : Type} {t : Ty} {s s' : State} {v : Value}

theorem push (h : v.HasType t) : Gives (Exec.push v) t s :=
  ⟨v, Array.back?_push .., h⟩

/-- A step that leaves no value. -/
theorem after {y : Exec α} {f : α → Exec Unit} {a : α} (hy : y s = .ok a s') (h : Gives (f a) t s') :
    Gives (y >>= f) t s := by
  unfold Gives at h ⊢
  rwa [bind_ok hy]

theorem pop (below : Array Value) {f : Value → Exec Unit} (hs : s.stack = below.push v)
    (h : Gives (f v) t { s with stack := below }) : Gives (Exec.pop >>= f) t s := by
  have hpop := pop_eq (s := s) (v := v) (by rw [hs, Array.back?_push])
  rw [hs, Array.pop_push] at hpop
  exact after hpop h

theorem popInt (below : Array Value) {task : Task} {f : Int32 → Exec Unit} {n : Int32}
    (hs : s.stack = below.push (.int n)) (h : Gives (f n) t { s with stack := below }) :
    Gives (Exec.popInt task >>= f) t s := by
  rw [Exec.popInt, bind_assoc]
  exact pop below hs h

theorem popFloat (below : Array Value) {task : Task} {f : Float → Exec Unit} {x : Float}
    (hs : s.stack = below.push (.float x)) (h : Gives (f x) t { s with stack := below }) :
    Gives (Exec.popFloat task >>= f) t s := by
  rw [Exec.popFloat, bind_assoc]
  exact pop below hs h

theorem popMany (below : Array Value) {f : Array Value → Exec Unit} {vs : Array Value} {n : Nat}
    (hs : s.stack = below ++ vs) (hn : vs.size = n) (h : Gives (f vs) t { s with stack := below }) :
    Gives (Exec.popMany n >>= f) t s := by
  subst hn
  exact after (popMany_eq vs hs) h

theorem readHeap {f : Heap → α} {g : α → Exec Unit} (h : Gives (g (f s.heap)) t s) :
    Gives (Exec.readHeap f >>= g) t s := after rfl h

theorem throw {fault : Fault} (h : fault.isTypeError = false) : Gives (MonadExcept.throw fault) t s := h

theorem lift {x : Except Fault α} {f : α → Exec Unit} (hx : ∀ fault, x = .error fault → fault.isTypeError = false)
    (h : ∀ a, x = .ok a → Gives (f a) t s) : Gives (Exec.lift x >>= f) t s := by
  cases x with
  | ok a => exact h a rfl
  | error fault => exact hx fault rfl

/-- A new collection is made. -/
theorem pushNew {shape : Shape} {cell : Heap → Cell} (h : ∀ r, (Value.ref shape r).HasType t) :
    Gives (Exec.pushNew shape cell) t s := ⟨_, Array.back?_push .., h s.heap.cells.size⟩

end Gives

section Operations

variable {limits : Limits} {environment : Environment} {w : World} {t : Ty} {a b : Value} {op : Opcode}

theorem intArith_typed {o : Arith} {m n : Int32} (fault : Fault) (h : Exec.intArith o m n = .error fault) :
    fault.isTypeError = false := by
  cases o <;> simp only [Exec.intArith] at h <;> first
    | cases h
    | (split at h <;> cases h; rfl)

/-- Arithmetic and comparison on numbers of one type. -/
theorem domain_cases {d : Domain} (h : t.domain? = some d) (hany : t ≠ .any) :
    t = .int ∧ d = .int ∨ t = .float ∧ d = .float := by
  cases t <;> simp [Ty.domain?] at h hany ⊢ <;> exact h.symm

theorem arith_gives {d : Domain} {o : Arith} (hd : t.domain? = some d) (hany : t ≠ .any)
    (ha : a.HasType t) (hb : b.HasType t) : Gives (Exec.arith d o) t (w.state #[a, b] 0 0) := by
  rcases domain_cases hd hany with ⟨rfl, rfl⟩ | ⟨rfl, rfl⟩
  · obtain ⟨⟩ := ha
    obtain ⟨⟩ := hb
    exact .popInt #[_] rfl (.popInt #[] rfl (.lift intArith_typed fun k _ => .push (.int k)))
  · obtain ⟨⟩ := ha
    obtain ⟨⟩ := hb
    exact .popFloat #[_] rfl (.popFloat #[] rfl (.push (.float _)))

theorem compare_gives {d : Domain} {r : Relation} (hd : t.domain? = some d) (hany : t ≠ .any)
    (ha : a.HasType t) (hb : b.HasType t) :
    Gives (Exec.compare d r) .bool (w.state #[a, b] 0 0) := by
  rcases domain_cases hd hany with ⟨rfl, rfl⟩ | ⟨rfl, rfl⟩
  · obtain ⟨⟩ := ha
    obtain ⟨⟩ := hb
    exact .popInt #[_] rfl (.popInt #[] rfl (.push (.bool _)))
  · obtain ⟨⟩ := ha
    obtain ⟨⟩ := hb
    exact .popFloat #[_] rfl (.popFloat #[] rfl (.push (.bool _)))

theorem concat_gives (ha : a.HasType .string) (hb : b.HasType .string) :
    Gives Exec.concat .string (w.state #[a, b] 0 0) := by
  obtain ⟨⟩ := ha
  obtain ⟨⟩ := hb
  exact .pop #[_] rfl (.pop #[] rfl (.push (.str _)))

theorem equal_gives {f : Bool → Bool} :
    Gives (do Exec.push (.bool (f (← Exec.popEqual)))) .bool (w.state #[a, b] 0 0) := by
  unfold Exec.popEqual
  simp only [bind_assoc]
  exact .pop #[_] rfl (.pop #[] rfl (.readHeap (.push (.bool _))))

/-- A rule for an operator between two operands keeps what it says. -/
theorem binary_gives {o : Syntax.BinaryOp} {rule : Rule} (plain : o.isLogical = false) (hany : t ≠ .any)
    (found : t.binaryRule? o = some rule) (action : rule.action = .emit op) (ha : a.HasType t)
    (hb : b.HasType t) :
    Gives (Exec.perform limits environment op .none) rule.result (w.state #[a, b] 0 0) := by
  unfold Ty.binaryRule? at found
  split at found
  · next a d _ hd =>
    cases found
    cases action
    exact arith_gives hd hany ha hb
  · next r d _ hd =>
    cases found
    cases action
    exact compare_gives hd hany ha hb
  · obtain ⟨ht, found⟩ := Option.ite_none_right_eq_some.1 found
    obtain rfl := eq_of_beq ht
    cases found
    cases action
    exact concat_gives ha hb
  · obtain ⟨_, -, rfl⟩ := Option.map_eq_some_iff.1 found
    cases action
    exact equal_gives (f := id)
  · obtain ⟨_, -, rfl⟩ := Option.map_eq_some_iff.1 found
    cases action
    exact equal_gives (f := not)
  · next hm => cases o <;> simp [Meaning.ofOp, Syntax.BinaryOp.isLogical] at hm plain
  · cases found

/-- A rule for an operator on one operand keeps what it says. -/
theorem unary_gives {o : Syntax.UnaryOp} {rule : Rule} (computes : o = .minus ∨ o = .not) (hany : t ≠ .any)
    (found : t.unaryRule? o .before = some rule) (action : rule.action = .emit op) (ha : a.HasType t) :
    Gives (Exec.perform limits environment op .none) rule.result (w.state #[a] 0 0) := by
  rcases computes with rfl | rfl
  · obtain ⟨d, hd, rfl⟩ := Option.map_eq_some_iff.1 found
    cases action
    rcases domain_cases hd hany with ⟨rfl, rfl⟩ | ⟨rfl, rfl⟩
    · obtain ⟨⟩ := ha
      exact .popInt #[] rfl (.push (.int _))
    · obtain ⟨⟩ := ha
      exact .popFloat #[] rfl (.push (.float _))
  · have hnot {op : Opcode} (hop : op = .notBool ∨ op = .notAny) :
        Gives (Exec.perform limits environment op .none) .bool (w.state #[a] 0 0) := by
      rcases hop with rfl | rfl <;> exact .pop #[] rfl (.push (.bool _))
    simp only [Ty.unaryRule?] at found
    split at found
    · cases found
      cases action
      exact hnot (.inl rfl)
    · exact absurd rfl hany
    · cases found

/-- A conversion makes a value of the type that is wanted. -/
theorem conversion_gives {t' : Ty} (found : t.conversion? t' = some op) (ha : a.HasType t) :
    Gives (Exec.perform limits environment op .none) t' (w.state #[a] 0 0) := by
  unfold Ty.conversion? at found
  split at found
  · cases found
    obtain ⟨⟩ := ha
    exact .popInt #[] rfl (.push (.float _))
  · cases found
    exact .pop #[] rfl (.readHeap (.push (.str _)))
  · cases found
    obtain ⟨⟩ := ha
    refine .popFloat #[] rfl ?_
    split
    · exact .push (.int _)
    · exact .throw rfl
  · cases found
    exact .pop #[] rfl (.readHeap (.push (.str _)))
  · cases found

/-- A rule for a field keeps what it says, unless it says nothing: the length of a text or a list and the size of
a set are integers. -/
theorem member_gives {field : String} {rule : Rule} (found : Assembly.fieldRule? t field = some rule)
    (action : rule.action = .emit op) (hresult : rule.result ≠ .any) (ha : a.HasType t) :
    Gives (Exec.perform limits environment op (.str field)) rule.result (w.state #[a] 0 0) := by
  have hload {width : Width} {n : Int32} (hmember : loadMember w.heap a field = .ok (.int n)) :
      Gives (Exec.perform limits environment (.loadMember width) (.str field)) .int (w.state #[a] 0 0) := by
    refine .after rfl (.pop #[] rfl (.after rfl ?_))
    show Gives (Exec.lift (loadMember w.heap a field) >>= Exec.push) _ _
    rw [hmember]
    exact .push (.int n)
  -- the length or the size of a collection, or a member of any other kind
  rcases Option.or_eq_some_iff.1 found with hnamed | ⟨-, hplain⟩
  · unfold Ty.namedMemberRule? at hnamed
    split at hnamed
    · obtain ⟨hfield, hrule⟩ := Option.ite_none_right_eq_some.1 hnamed
      obtain ⟨⟩ := ha
      cases hrule
      cases action
      exact hload (by rw [loadMember, if_pos hfield]; rfl)
    · obtain ⟨hfield, hrule⟩ := Option.ite_none_right_eq_some.1 hnamed
      obtain ⟨⟩ := ha
      cases hrule
      cases action
      exact hload (by rw [loadMember, if_pos hfield]; rfl)
    · obtain ⟨hfield, hrule⟩ := Option.ite_none_right_eq_some.1 hnamed
      obtain ⟨⟩ := ha
      cases hrule
      cases action
      exact hload (by rw [loadMember, if_pos hfield]; rfl)
    · cases hnamed
  · unfold Ty.memberRule? at hplain
    split at hplain
    · cases hplain
      exact absurd rfl hresult
    · cases hplain
      exact absurd rfl hresult
    · cases hplain

/-- A set says whether it has a member. -/
theorem element_gives {width : Width} (ha : a.HasType .set) :
    Gives (Exec.perform limits environment (.loadElement width) (.int (1 : Nat))) .bool (w.state #[a, b] 0 0) := by
  obtain ⟨⟩ := ha
  next r =>
  have hstack : (w.state #[.ref .set r, b] 0 0).stack = #[.ref .set r] ++ #[b] := rfl
  exact .after (countOperand_eq _ 1 _)
    (.popMany #[.ref .set r] hstack rfl (.pop #[] rfl (.after rfl (.push (.bool _)))))

section Collections

variable {vs : Array Value} {n : Nat}

theorem newArray_gives (hn : vs.size = n) :
    Gives (Exec.perform limits environment .newArray (.int n)) .array (w.state vs 0 0) :=
  .after (countOperand_eq _ n _) (.popMany #[] (Array.empty_append ..).symm hn (.pushNew .list))

theorem newSet_gives (hn : vs.size = n) :
    Gives (Exec.perform limits environment .newSet (.int n)) .set (w.state vs 0 0) :=
  .after (countOperand_eq _ n _) (.popMany #[] (Array.empty_append ..).symm hn (.pushNew .set))

theorem newObject_gives (hn : vs.size = 2 * n)
    (hpairs : ∀ fault, Exec.pairUp vs.toList = .error fault → fault.isTypeError = false) :
    Gives (Exec.perform limits environment .newObject (.int n)) .object (w.state vs 0 0) :=
  .after (countOperand_eq _ n _) (.popMany #[] (Array.empty_append ..).symm hn
    (.lift hpairs fun _ _ => .pushNew .object))

theorem buildString_gives (hn : vs.size = n) :
    Gives (Exec.perform limits environment .buildString (.int n)) .string (w.state vs 0 0) :=
  .after (countOperand_eq _ n _) (.popMany #[] (Array.empty_append ..).symm hn (.readHeap (.push (.str _))))

end Collections

end Operations

end StackScript.Machine

namespace StackScript

open Typing Machine

/-! ### Bindings -/

/-- The host's values are of the runtime types that the host declares. -/
def Host.Environment.Typed (environment : Host.Environment) : Prop :=
  ∀ name b, environment.get? name = some b → b.type = .any ∨ b.value.HasType b.type

/-- A binding is copied, and its copy is of its type. -/
theorem Host.Environment.Typed.gives {environment : Host.Environment} {s : State} {name : String}
    {b : Host.Binding} (ht : environment.Typed) (hb : environment.get? name = some b) (hany : b.type ≠ .any)
    (limits : Limits) : Gives (Exec.perform limits environment .loadExternal (.str name)) b.type s := by
  have htype := (ht name b hb).resolve_left hany
  refine .after (a := name) rfl ?_
  rw [hb]
  exact ⟨_, Array.back?_push .., htype.copied s.heap⟩

end StackScript

namespace StackScript.Evaluation

open Typing Bytecode Host Machine

/-! ### Evaluations -/

/-- The visible variables have values of their types. -/
def Memory.Sound (Γ : Names) (μ : Memory) : Prop :=
  ∀ name t, Γ.find? name = some t → t ≠ .any → (μ.vars name).HasType t

/-- How evaluations end: with what is said of the result and the variables in `Γ` sound; or by leaving a loop, around
which the variables in `Γ₀` are sound; or early, but not for a value of the wrong type. -/
def Safe {α : Type} (Γ₀ Γ : Names) (post : α → Prop) (x : Eval α) (μ : Memory) : Prop :=
  match x μ with
  | .ok a μ' => post a ∧ μ'.Sound Γ
  | .error (.fault f) _ => f.isTypeError = false
  | .error (.leave _) μ' => μ'.Sound Γ₀
  | .error _ _ => True

namespace Safe

variable {α β : Type} {environment : Environment} {limits : Limits} {Γ₀ Γ Γ₁ : Names} {post : α → Prop}
  {x : Eval α} {μ : Memory}

theorem pure {a : α} (hμ : μ.Sound Γ) (h : post a) : Safe Γ₀ Γ post (pure a) μ := ⟨h, hμ⟩

theorem mono {post' : α → Prop} (h : Safe Γ₀ Γ post x μ) (hpost : ∀ a, post a → post' a) :
    Safe Γ₀ Γ post' x μ := by
  unfold Safe at h ⊢
  rcases hr : x μ with ⟨a, μ'⟩ | ⟨⟨⟩ | ⟨⟩ | ⟨⟩ | _ | _, μ'⟩
  all_goals rw [hr] at h
  case ok => exact ⟨hpost _ h.1, h.2⟩
  all_goals exact h

theorem bind {post' : β → Prop} {f : α → Eval β} (hx : Safe Γ₀ Γ₁ post x μ)
    (hf : ∀ a μ', post a → μ'.Sound Γ₁ → Safe Γ₀ Γ post' (f a) μ') : Safe Γ₀ Γ post' (x >>= f) μ := by
  unfold Safe at hx ⊢
  rw [show (x >>= f) μ = EStateM.bind x f μ from rfl, EStateM.bind]
  rcases hr : x μ with ⟨a, μ'⟩ | ⟨⟨⟩ | ⟨⟩ | ⟨⟩ | _ | _, μ'⟩
  all_goals rw [hr] at hx
  case ok => exact hf a μ' hx.1 hx.2
  all_goals exact hx

/-- An operation that gives a value of a type. -/
theorem operate {op : Opcode} {operand : Operand} {vs : List Value} {t : Ty} (hμ : μ.Sound Γ)
    (h : Gives (Exec.perform limits environment op operand) t (μ.world.state vs.toArray 0 0)) :
    Safe Γ₀ Γ (fun v => v.HasType t) (operate limits environment (some op) operand vs) μ := by
  unfold Gives at h
  unfold Safe Evaluation.operate
  dsimp only
  rcases hr : Exec.perform limits environment op operand (μ.world.state vs.toArray 0 0) with ⟨_, s⟩ | ⟨f, s⟩
  all_goals rw [hr] at h
  · obtain ⟨v, hback, ht⟩ := h
    refine ⟨?_, hμ⟩
    show (s.stack.back?.getD .null).HasType t
    rw [hback]
    exact ht
  · show f.unplaced.isTypeError = false
    rw [Fault.isTypeError_unplaced]
    exact h

end Safe

end StackScript.Evaluation
