import StackScript.Proofs.CodeShape
import StackScript.Proofs.Effects
import StackScript.Proofs.Subtrees

/-!
# The heights of code

* `OkAt`: an instruction finds the values that it takes, and wherever it leads, some property of
  places and heights holds.
* `Ends`: what the last instruction of an expression takes and leaves.
* `ExprCode.heights`: a property that holds behind an expression, with one value more, holds where
  the expression begins, if it goes back along instructions.

Heights are counted from the cell behind the variables of the function.
-/

namespace StackScript.Assembly

open Typing Bytecode Host Syntax Machine

/-- The instruction at `a` finds the values that it takes among the `k` values above the variables,
and `P` holds of the place and the height that it leads to.  If code is not looked at strictly, an
instruction may be one that always fails. -/
inductive OkAt (L : Layout) (strict : Prop) (r : Room) (P : Nat → Nat → Prop) (a k : Nat) : Prop
  | plain {op x m g j} (has : L.Has a ⟨op, x⟩) (effect : Effect op x m g) (height : k = j + m)
      (next : P (a + 1) (j + g))
  | load {area w i} (has : L.Has a ⟨.load area w, .int i⟩) (reached : L.Reaches r area i)
      (next : P (a + 1) (k + 1))
  | store {area w i j} (has : L.Has a ⟨.store area w, .int i⟩) (reached : L.Reaches r area i)
      (height : k = j + 1) (next : P (a + 1) j)
  | update {area u i} (has : L.Has a ⟨.update area u, .int i⟩) (reached : L.Reaches r area i)
      (next : P (a + 1) k)
  | fails {op} (lenient : ¬strict) (has : L.Has a ⟨op, .int (0 : Nat)⟩)
      (element : (∃ w, op = .storeElement w) ∨ ∃ u, op = .updateElement u)
  | jump {t : Nat} (has : L.Has a ⟨.jump, .int t⟩) (next : P t k)
  | branch {op} {t j : Nat} (has : L.Has a ⟨op, .int t⟩) (test : op = .branchFalse ∨ op = .branchTrue)
      (height : k = j + 1) (taken : P t j) (next : P (a + 1) j)
  | branchInt {rel} {t j : Nat} (has : L.Has a ⟨.branchInt rel, .int t⟩) (height : k = j + 2)
      (taken : P t j) (next : P (a + 1) j)
  | call {t n j b : Nat} (has : L.Has a ⟨.callInternal, .int t⟩) (entry : L.Entry n t)
      (drop : DropCode L n (a + 1) b) (height : k = j + n) (next : P (a + 1) k)
  | ret (has : L.Has a ⟨.ret, .none⟩)
  | retWith {w j} (has : L.Has a ⟨.retWith w, .none⟩) (height : k = j + 1)
  | term {j} (has : L.Has a ⟨.term, .none⟩) (height : k = j + 1)

namespace OkAt

variable {L : Layout} {strict : Prop} {r : Room} {P Q : Nat → Nat → Prop} {a k : Nat}

/-- The same with `i` values more, which stay. -/
theorem shift (h : OkAt L strict r P a k) (i : Nat) (hPQ : ∀ a k, P a k → Q a (k + i)) :
    OkAt L strict r Q a (k + i) := by
  cases h with
  | @plain _ _ m g j has effect height next =>
    exact .plain (j := j + i) has effect (by omega)
      (by rw [Nat.add_right_comm]; exact hPQ _ _ next)
  | load has reached next =>
    exact .load has reached (by rw [Nat.add_right_comm]; exact hPQ _ _ next)
  | @store _ _ _ j has reached height next =>
    exact .store (j := j + i) has reached (by omega) (hPQ _ _ next)
  | update has reached next => exact .update has reached (hPQ _ _ next)
  | fails lenient has element => exact .fails lenient has element
  | jump has next => exact .jump has (hPQ _ _ next)
  | @branch _ _ j has test height taken next =>
    exact .branch (j := j + i) has test (by omega) (hPQ _ _ taken) (hPQ _ _ next)
  | @branchInt _ _ j has height taken next =>
    exact .branchInt (j := j + i) has (by omega) (hPQ _ _ taken) (hPQ _ _ next)
  | @call _ _ j _ has entry drop height next =>
    exact .call (j := j + i) has entry drop (by omega) (hPQ _ _ next)
  | ret has => exact .ret has
  | @retWith _ j has height => exact .retWith (j := j + i) has (by omega)
  | @term j has height => exact .term (j := j + i) has (by omega)

theorem mono (h : OkAt L strict r P a k) (hPQ : ∀ a k, P a k → Q a k) : OkAt L strict r Q a k :=
  h.shift 0 hPQ

end OkAt

/-! ### What instructions take and leave -/

def count : Operand → Nat
  | .int n => n.toNat
  | _ => 0

@[simp] theorem count_natCast (n : Nat) : count (.int n) = n := Int.toNat_natCast n

/-- The number of values that an instruction takes. -/
def takes (op : Opcode) (x : Operand) : Nat :=
  match op with
  | .popStack => count x
  | .callExternal => count x + 1
  | .arith _ _ | .compare _ _ | .concat | .equal _ | .notEqual _ | .storeMember _ => 2
  | .negate _ | .notBool | .notAny | .intToFloat | .floatToInt | .intToString | .floatToString => 1
  | .store _ _ | .loadMember _ | .updateMember _ => 1
  | .loadElement _ | .updateElement _ => count x + 1
  | .storeElement _ => count x + 2
  | .newArray | .newSet | .buildString => count x
  | .newObject => 2 * count x
  | _ => 0

/-- The number of values that an instruction leaves. -/
def gives : Opcode → Nat
  | .popStack | .callExternal | .store _ _ | .update _ _ | .storeMember _ | .updateMember _ | .storeElement _
  | .updateElement _ => 0
  | _ => 1

/-- The places and heights that an instruction leads to. -/
def successors (d : Draft) (a k : Nat) : List (Nat × Nat) :=
  match d.opcode with
  | .jump => [(count d.operand, k)]
  | .branchFalse | .branchTrue => [(count d.operand, k - 1), (a + 1, k - 1)]
  | .branchInt _ => [(count d.operand, k - 2), (a + 1, k - 2)]
  | .callInternal => [(a + 1, k)]
  | .ret | .retWith _ | .term => []
  | .storeElement _ | .updateElement _ =>
    if count d.operand = 0 then [] else [(a + 1, k - takes d.opcode d.operand)]
  | op => [(a + 1, k - takes op d.operand + gives op)]

namespace OkAt

variable {L : Layout} {strict : Prop} {r : Room} {P Q : Nat → Nat → Prop} {a k : Nat} {d : Draft}

theorem has (h : OkAt L strict r P a k) : ∃ d, L.Has a d := by
  cases h <;> exact ⟨_, ‹_›⟩

theorem successors_of_effect {op : Opcode} {x : Operand} {m g j : Nat} (h : Effect op x m g) :
    successors ⟨op, x⟩ a (j + m) = [(a + 1, j + g)] := by
  cases h with
  | binary h => cases op <;> first | rfl | exact absurd h Bool.false_ne_true
  | unary h => cases op <;> first | rfl | exact absurd h Bool.false_ne_true
  | storeElement n | updateElement n =>
    simp only [successors, takes, count_natCast, if_neg (Nat.succ_ne_zero n), Nat.add_zero]
    congr 2
    omega
  | _ => simp [successors, takes, gives]

/-- An instruction is known by its place. -/
theorem has_inj {d d' : Draft} (h : L.Has a d) (h' : L.Has a d') : d = d' := by
  have := Option.some.inj (h.symm.trans h')
  cases d
  cases d'
  simp only [Instruction.mk.injEq, Operation.known.injEq] at this
  obtain ⟨rfl, rfl⟩ := this
  rfl

/-- The property holds of everything that the instruction leads to. -/
theorem next (h : OkAt L strict r P a k) (hd : L.Has a d) :
    ∀ y ∈ successors d a k, P y.1 y.2 := by
  cases h with
  | plain has effect height next =>
    obtain rfl := has_inj hd has
    rw [height, successors_of_effect effect]
    simpa using next
  | load has _ next | update has _ next =>
    obtain rfl := has_inj hd has
    simpa [successors, takes, gives] using next
  | store has _ height next =>
    obtain rfl := has_inj hd has
    simpa [successors, takes, gives, height] using next
  | fails _ has element =>
    obtain rfl := has_inj hd has
    rcases element with ⟨w, rfl⟩ | ⟨u, rfl⟩ <;> simp [successors, count]
  | jump has next =>
    obtain rfl := has_inj hd has
    simpa [successors, count] using next
  | branch has test height taken next =>
    obtain rfl := has_inj hd has
    rcases test with rfl | rfl <;> simpa [successors, height] using ⟨taken, next⟩
  | branchInt has height taken next =>
    obtain rfl := has_inj hd has
    simpa [successors, height] using ⟨taken, next⟩
  | call has _ _ _ next =>
    obtain rfl := has_inj hd has
    simpa [successors] using next
  | ret has | retWith has _ | term has _ =>
    obtain rfl := has_inj hd has
    simp [successors]

/-- Any property that holds of everything that the instruction leads to will do. -/
theorem of_next (h : OkAt L strict r P a k) (hd : L.Has a d)
    (hQ : ∀ y ∈ successors d a k, Q y.1 y.2) : OkAt L strict r Q a k := by
  cases h with
  | plain has effect height next =>
    obtain rfl := has_inj hd has
    rw [height, successors_of_effect effect] at hQ
    exact .plain has effect height (hQ _ (List.mem_singleton_self _))
  | load has reached next =>
    obtain rfl := has_inj hd has
    exact .load has reached (hQ _ (List.mem_singleton_self _))
  | update has reached next =>
    obtain rfl := has_inj hd has
    exact .update has reached (hQ _ (List.mem_singleton_self _))
  | store has reached height next =>
    obtain rfl := has_inj hd has
    subst height
    exact .store has reached rfl (hQ _ (List.mem_singleton_self _))
  | fails lenient has element => exact .fails lenient has element
  | jump has next =>
    obtain rfl := has_inj hd has
    refine .jump has ?_
    simpa [successors] using hQ
  | @branch _ t j has test height taken next =>
    obtain rfl := has_inj hd has
    have hQ' : Q t j ∧ Q (a + 1) j := by
      rcases test with rfl | rfl <;> simpa [successors, height] using hQ
    exact .branch has test height hQ'.1 hQ'.2
  | @branchInt _ t j has height taken next =>
    obtain rfl := has_inj hd has
    have hQ' : Q t j ∧ Q (a + 1) j := by simpa [successors, height] using hQ
    exact .branchInt has height hQ'.1 hQ'.2
  | call has entry drop height next =>
    obtain rfl := has_inj hd has
    exact .call has entry drop height (hQ _ (List.mem_singleton_self _))
  | ret has => exact .ret has
  | retWith has height => exact .retWith has height
  | term has height => exact .term has height

/-- What holds up to any depth holds. -/
theorem limit {S : Nat → Nat → Nat → Prop} (h : ∀ n, OkAt L strict r (S n) a k) :
    OkAt L strict r (fun a k => ∀ n, S n a k) a k := by
  obtain ⟨d, hd⟩ := (h 0).has
  exact (h 0).of_next hd fun y hy n => (h n).next hd y hy

end OkAt

/-- An instruction that an expression can end in. -/
inductive Ends (L : Layout) (strict : Prop) (r : Room) : Draft → Prop
  | plain {op x} (effect : Effect op x (takes op x) (gives op)) : Ends L strict r ⟨op, x⟩
  | load {area w i} (reached : L.Reaches r area i) : Ends L strict r ⟨.load area w, .int i⟩
  | store {area w i} (reached : L.Reaches r area i) : Ends L strict r ⟨.store area w, .int i⟩
  | update {area u i} (reached : L.Reaches r area i) : Ends L strict r ⟨.update area u, .int i⟩
  | fails {op} (lenient : ¬strict) (element : (∃ w, op = .storeElement w) ∨ ∃ u, op = .updateElement u) :
      Ends L strict r ⟨op, .int (0 : Nat)⟩

section Ends

variable {L : Layout} {strict : Prop} {r : Room} {c : ScopeChain} {P : Nat → Nat → Prop} {a k : Nat}
  {d : Draft} {o o' : Opcode} {x : Operand}

/-- The last instruction is carried out if it is in place. -/
theorem Ends.okAt (h : Ends L strict r d) (hd : L.Has a d) (hP : P (a + 1) (k + gives d.opcode)) :
    OkAt L strict r P a (k + takes d.opcode d.operand) := by
  cases h with
  | plain effect => exact .plain hd effect rfl hP
  | load reached => exact .load hd reached hP
  | store reached => exact .store hd reached rfl hP
  | update reached => exact .update hd reached hP
  | fails lenient element => exact .fails lenient hd element

theorem gives_eq_zero_or_one (o : Opcode) : gives o = 0 ∨ gives o = 1 := by
  cases o <;> first | exact .inl rfl | exact .inr rfl

theorem takes_of_binary (h : isBinary o = true) : takes o x = 2 := by
  cases o <;> first | rfl | exact absurd h Bool.false_ne_true

theorem gives_of_binary (h : isBinary o = true) : gives o = 1 := by
  cases o <;> first | rfl | exact absurd h Bool.false_ne_true

theorem takes_of_unary (h : isUnary o = true) : takes o x = 1 := by
  cases o <;> first | rfl | exact absurd h Bool.false_ne_true

theorem gives_of_unary (h : isUnary o = true) : gives o = 1 := by
  cases o <;> first | rfl | exact absurd h Bool.false_ne_true

/-- A store takes the value besides what the load takes, and leaves nothing. -/
theorem takes_store (h : Write.storeFor? o = some o') : takes o' x = takes o x + 1 ∧ gives o' = 0 := by
  rcases Write.storeFor?_eq_some h with ⟨a, w, rfl, rfl⟩ | ⟨w, rfl, rfl⟩ | ⟨w, rfl, rfl⟩ <;>
    exact ⟨rfl, rfl⟩

/-- An update takes what the load takes, and leaves nothing. -/
theorem takes_update {u : Bytecode.Update} (h : Write.updateFor? u o = some o') :
    takes o' x = takes o x ∧ gives o' = 0 := by
  rcases Write.updateFor?_eq_some h with ⟨a, w, rfl, rfl⟩ | ⟨w, rfl, rfl⟩ | ⟨w, rfl, rfl⟩ <;>
    exact ⟨rfl, rfl⟩

theorem isUnary_of_emit {op : UnaryOp} {t : Ty} {rule : Rule} (computes : op = .minus ∨ op = .not)
    (found : t.unaryRule? op .before = some rule) (action : rule.action = .emit o) :
    isUnary o = true := by
  obtain ⟨o', ho', hunary, -⟩ := Ty.unaryRule?_emits found computes
  obtain rfl := Action.emit.inj (action.symm.trans ho')
  exact hunary

theorem isBinary_of_emit {op : BinaryOp} {t : Ty} {rule : Rule} (plain : op.isLogical = false)
    (found : t.binaryRule? op = some rule) (action : rule.action = .emit o) : isBinary o = true := by
  obtain ⟨o', ho', hbinary, -⟩ := Ty.binaryRule?_emits found plain
  obtain rfl := Action.emit.inj (action.symm.trans ho')
  exact hbinary

theorem loadMember_of_emit {t : Ty} {field : String} {rule : Rule}
    (found : fieldRule? t field = some rule) (action : rule.action = .emit o) :
    ∃ w, o = .loadMember w := by
  obtain ⟨w, hw, -⟩ := Ty.fieldRule_emits found
  exact ⟨w, Action.emit.inj (action.symm.trans hw)⟩

theorem loadElement_of_emit {t : Ty} {rule : Rule} (found : t.elementRule? = some rule)
    (action : rule.action = .emit o) : ∃ w, o = .loadElement w := by
  obtain ⟨w, hw, -⟩ := Ty.elementRule?_emits found
  exact ⟨w, Action.emit.inj (action.symm.trans hw)⟩

/-- The draft loads an element by at least one index, if it loads one. -/
def Indexed (strict : Prop) (d : Draft) : Prop :=
  strict → ∀ w, d.opcode = .loadElement w → count d.operand ≠ 0

/-- What a load became by `f` ends an expression, too. -/
theorem Ends.replaced {f : Opcode → Option Opcode} (h : Ends L strict r ⟨o, x⟩)
    (hi : Indexed strict ⟨o, x⟩) (hf : f = Write.storeFor? ∨ ∃ u, f = Write.updateFor? u)
    (ho : f o = some o') : Ends L strict r ⟨o', x⟩ := by
  -- a load of a variable, a member or an element becomes the store or the update of the same
  have hcases : (∃ a w, o = .load a w ∧ ((∃ w, o' = .store a w) ∨ ∃ u, o' = .update a u)) ∨
      (∃ w, o = .loadMember w ∧ ((∃ w, o' = .storeMember w) ∨ ∃ u, o' = .updateMember u)) ∨
      ∃ w, o = .loadElement w ∧ ((∃ w, o' = .storeElement w) ∨ ∃ u, o' = .updateElement u) := by
    rcases hf with rfl | ⟨u, rfl⟩
    · rcases Write.storeFor?_eq_some ho with ⟨a, w, rfl, rfl⟩ | ⟨w, rfl, rfl⟩ | ⟨w, rfl, rfl⟩ <;> simp
    · rcases Write.updateFor?_eq_some ho with ⟨a, w, rfl, rfl⟩ | ⟨w, rfl, rfl⟩ | ⟨w, rfl, rfl⟩ <;> simp
  rcases hcases with ⟨a, w, rfl, hto⟩ | ⟨w, rfl, hto⟩ | ⟨w, rfl, hto⟩
  · cases h with
    | plain effect => cases effect
    | load reached =>
      rcases hto with ⟨w, rfl⟩ | ⟨u, rfl⟩
      · exact .store reached
      · exact .update reached
    | fails _ element => simp at element
  · cases h with
    | plain effect => cases effect with
      | unary h => cases h
      | loadMember s =>
        rcases hto with ⟨w, rfl⟩ | ⟨u, rfl⟩
        · exact .plain (.storeMember s)
        · exact .plain (.updateMember s)
    | fails _ element => simp at element
  · cases h with
    | plain effect =>
      generalize htake : takes (.loadElement w) x = m at effect
      cases effect with
      | binary h => cases h
      | unary h => cases h
      | loadElement n =>
        -- without an index there is no element to store, which only a lenient layout allows
        rcases Nat.eq_zero_or_pos n with rfl | hn
        · by_cases hs : strict
          · exact absurd (count_natCast 0) (hi hs w rfl)
          · exact .fails hs (by simpa using hto)
        · obtain ⟨n, rfl⟩ : ∃ m, n = m + 1 := ⟨n - 1, by omega⟩
          rcases hto with ⟨w, rfl⟩ | ⟨u, rfl⟩
          · exact .plain (by rw [takes, count_natCast]; exact .storeElement n)
          · exact .plain (by rw [takes, count_natCast]; exact .updateElement n)
    | fails _ element => simp at element

theorem ends_literal (v : Literal) : Ends L strict r (literalDraft v) := by
  cases v with
  | int n => exact .plain (.int n)
  | float y => exact .plain (.float y)
  | string s => exact .plain (.str s)
  | bool b => exact .plain (.bool b)
  | null => exact .plain .loadNull

theorem ends_template (n : Nat) : Ends L strict r (templateDraft n) := by
  unfold templateDraft
  split
  · exact .plain (.str "")
  · exact .plain (by rw [takes, count_natCast]; exact .buildString n)

theorem Indexed.of_ne (h : ∀ w, o ≠ .loadElement w) : Indexed strict ⟨o, x⟩ :=
  fun _ w hw => absurd hw (h w)

end Ends

section ExprCode

variable {L : Layout} {strict : Prop} {r : Room} {c : ScopeChain} {e : Expr} {p q : Nat} {d : Draft}
  {t : Ty} {a : Bool}

/-- The last instruction of an expression is one that an expression can end in. -/
theorem ExprCode.ends : {e : Expr} → {p q : Nat} → {d : Draft} → {t : Ty} → {a : Bool} →
    ExprCode L r c e p q d t a → (strict → e.every Expr.indexed = true) →
    Ends L strict r d ∧ Indexed strict d
  | _, _, _, _, _, _, .literal (v := v), _ =>
    ⟨ends_literal v, .of_ne (by cases v <;> exact nofun)⟩
  | _, _, _, _, _, _, .template (n := n) _, _ =>
    ⟨ends_template n, fun _ w h => by unfold templateDraft at h; split at h <;> cases h⟩
  | _, _, _, _, _, _, .external _ _, _ => ⟨.plain (.loadExternal _), .of_ne nofun⟩
  | _, _, _, _, _, _, .function _ _ _ _, _ => ⟨.plain (.loadFunction _), .of_ne nofun⟩
  | _, _, _, _, _, _, .variable _ _ _ _ _ reached _, _ => ⟨.load reached, .of_ne nofun⟩
  | _, _, _, _, _, _, .update _ code _ _ _ load _, hi => by
    obtain ⟨hends, hindexed⟩ := code.ends fun hs => by
      have := hi hs
      simp only [Expr.every, Bool.and_eq_true] at this
      exact this.2
    refine ⟨hends.replaced hindexed (.inr ⟨_, rfl⟩) load, .of_ne fun w hw => ?_⟩
    rcases Write.updateFor?_eq_some load with ⟨_, _, -, h⟩ | ⟨_, -, h⟩ | ⟨_, -, h⟩ <;>
      rw [hw] at h <;> cases h
  | _, _, _, _, _, _, .unary computes _ found action, _ => by
    have hunary := isUnary_of_emit computes found action
    refine ⟨.plain ?_, .of_ne fun w hw => by subst hw; cases hunary⟩
    rw [takes_of_unary hunary, gives_of_unary hunary]
    exact .unary hunary
  | _, _, _, _, _, _, .binary plain _ _ _ found action, _ => by
    have hbinary := isBinary_of_emit plain found action
    refine ⟨.plain ?_, .of_ne fun w hw => by subst hw; cases hbinary⟩
    rw [takes_of_binary hbinary, gives_of_binary hbinary]
    exact .binary hbinary
  | _, _, _, _, _, _, .logical .., _ => ⟨.plain (.bool _), .of_ne nofun⟩
  | _, _, _, _, _, _, .ternary _ _ _ second _ _, hi => second.ends fun hs => by
    have := hi hs
    simp only [Expr.every, Bool.and_eq_true] at this
    exact this.2
  | _, _, _, _, _, _, .member _ found action, _ => by
    obtain ⟨w, rfl⟩ := loadMember_of_emit found action
    exact ⟨.plain (.loadMember _), .of_ne nofun⟩
  | _, _, _, _, _, _, .index _ _ found action, hi => by
    obtain ⟨w, rfl⟩ := loadElement_of_emit found action
    refine ⟨.plain (by rw [takes, count_natCast]; exact .loadElement _), fun hs _ _ => ?_⟩
    have := Expr.every_self (hi hs)
    rw [Expr.indexed, Bool.not_eq_true', List.isEmpty_eq_false_iff] at this
    rw [count_natCast]
    exact fun h => this (List.eq_nil_of_length_eq_zero h)
  | _, _, _, _, _, _, .callFunction .., _ => ⟨.plain .pushReturn, .of_ne nofun⟩
  | _, _, _, _, _, _, .callHost .., _ => ⟨.plain .pushReturn, .of_ne nofun⟩
  | _, _, _, _, _, _, .assign _ code _ _ load, hi => by
    obtain ⟨hends, hindexed⟩ := code.ends fun hs => by
      have := hi hs
      simp only [Expr.every, Bool.and_eq_true] at this
      exact this.1.2
    refine ⟨hends.replaced hindexed (.inl rfl) load, .of_ne fun w hw => ?_⟩
    rcases Write.storeFor?_eq_some load with ⟨_, _, -, h⟩ | ⟨_, -, h⟩ | ⟨_, -, h⟩ <;>
      rw [hw] at h <;> cases h
  | _, _, _, _, _, _, .array _, _ => ⟨.plain (by rw [takes, count_natCast]; exact .newArray _), .of_ne nofun⟩
  | _, _, _, _, _, _, .set _, _ => ⟨.plain (by rw [takes, count_natCast]; exact .newSet _), .of_ne nofun⟩
  | _, _, _, _, _, _, .object _, _ => ⟨.plain (by rw [takes, count_natCast]; exact .newObject _), .of_ne nofun⟩

/-- Where code of an expression that leaves a value ends, a value is left. -/
theorem ExprCode.gives_eq_one : {e : Expr} → {p q : Nat} → {d : Draft} → {t : Ty} → {a : Bool} →
    ExprCode L r c e p q d t a → t ≠ .void → gives d.opcode = 1
  | _, _, _, _, _, _, .literal (v := v), _ => by cases v <;> rfl
  | _, _, _, _, _, _, .template (n := n) _, _ => by unfold templateDraft; split <;> rfl
  | _, _, _, _, _, _, .external _ _, _ => rfl
  | _, _, _, _, _, _, .function _ _ _ _, _ => rfl
  | _, _, _, _, _, _, .variable _ _ _ _ _ _ _, _ => rfl
  | _, _, _, _, _, _, .update updates _ _ found _ _ _, ht => by
    rw [Ty.unaryRule?_updates found updates] at ht
    exact absurd rfl ht
  | _, _, _, _, _, _, .unary computes _ found action, _ =>
    gives_of_unary (isUnary_of_emit computes found action)
  | _, _, _, _, _, _, .binary plain _ _ _ found action, _ =>
    gives_of_binary (isBinary_of_emit plain found action)
  | _, _, _, _, _, _, .logical .., _ => rfl
  | _, _, _, _, _, _, .ternary _ _ _ second leaves _, _ => second.gives_eq_one leaves
  | _, _, _, _, _, _, .member _ found action, _ => by
    obtain ⟨w, rfl⟩ := loadMember_of_emit found action
    rfl
  | _, _, _, _, _, _, .index _ _ found action, _ => by
    obtain ⟨w, rfl⟩ := loadElement_of_emit found action
    rfl
  | _, _, _, _, _, _, .callFunction .., _ => rfl
  | _, _, _, _, _, _, .callHost .., _ => rfl
  | _, _, _, _, _, _, .assign .., ht => absurd rfl ht
  | _, _, _, _, _, _, .array _, _ => rfl
  | _, _, _, _, _, _, .set _, _ => rfl
  | _, _, _, _, _, _, .object _, _ => rfl

theorem DropCode.le {n : Nat} (h : DropCode L n p q) : p ≤ q := by cases h <;> omega

mutual

theorem ExprCode.lt : {e : Expr} → {p q : Nat} → {d : Draft} → {t : Ty} → {a : Bool} →
    ExprCode L r c e p q d t a → p < q
  | _, _, _, _, _, _, .literal => by omega
  | _, _, _, _, _, _, .template code => by have := code.le; omega
  | _, _, _, _, _, _, .external _ _ => by omega
  | _, _, _, _, _, _, .function _ _ _ _ => by omega
  | _, _, _, _, _, _, .variable _ _ _ _ _ _ _ => by omega
  | _, _, _, _, _, _, .update _ code _ _ _ _ _ => code.lt
  | _, _, _, _, _, _, .unary _ code _ _ => by have := code.lt; omega
  | _, _, _, _, _, _, .binary _ first second _ _ _ => by have := first.lt; have := second.lt; omega
  | _, _, _, _, _, _, .logical _ first _ second _ _ _ => by have := first.lt; have := second.lt; omega
  | _, _, _, _, _, _, .ternary choice first _ second _ _ => by
    have := choice.lt; have := first.lt; have := second.lt; omega
  | _, _, _, _, _, _, .member code _ _ => by have := code.lt; omega
  | _, _, _, _, _, _, .index code rest _ _ => by have := code.lt; have := rest.le; omega
  | _, _, _, _, _, _, .callFunction code target _ _ drop => by
    have := code.le; have := target.lt; have := drop.le; omega
  | _, _, _, _, _, _, .callHost code target _ _ _ => by have := code.le; have := target.lt; omega
  | _, _, _, _, _, _, .assign stored code _ _ _ => by have := stored.lt; have := code.lt; omega
  | _, _, _, _, _, _, .array code => by have := code.le; omega
  | _, _, _, _, _, _, .set code => by have := code.le; omega
  | _, _, _, _, _, _, .object code => by have := code.le; omega

theorem ValueCode.lt : {e : Expr} → {p q : Nat} → {t : Ty} → ValueCode L r c e p q t → p < q
  | _, _, _, _, .value code _ _ => code.lt

theorem ValuesCode.le : {es : List Expr} → {p q : Nat} → {types : List Ty} →
    ValuesCode L r c es p q types → p ≤ q
  | _, _, _, _, .nil => Nat.le_refl _
  | _, _, _, _, .cons first others => Nat.le_trans (Nat.le_of_lt first.lt) others.le

theorem FieldsCode.le : {fields : List (String × Expr)} → {p q : Nat} →
    FieldsCode L r c fields p q → p ≤ q
  | _, _, _, .nil => Nat.le_refl _
  | _, _, _, .cons _ first others => by have := first.lt; have := others.le; omega

theorem PartsCode.le : {chunks : List String} → {parts : List Expr} → {p q n : Nat} →
    PartsCode L r c chunks parts p q n → p ≤ q
  | _, _, _, _, _, .done => Nat.le_refl _
  | _, _, _, _, _, .text _ _ rest => by have := rest.le; omega
  | _, _, _, _, _, .noText _ rest => rest.le

theorem PieceCode.le : {chunks : List String} → {parts : List Expr} → {p q n : Nat} →
    PieceCode L r c chunks parts p q n → p ≤ q
  | _, _, _, _, _, .none rest => rest.le
  | _, _, _, _, _, .some code rest => by have := code.lt; have := rest.le; omega

theorem CondCode.lt : {e : Expr} → {p q no : Nat} → CondCode L r c e p q no → p < q
  | _, _, _, _, .branch code _ => by have := code.lt; omega
  | _, _, _, _, .merged _ first second _ _ _ _ => by have := first.lt; have := second.lt; omega

end

end ExprCode

/-! ### Properties that go back along instructions -/

/-- The name that an expression ends in, if it is a name or a choice whose last arm ends in a name. -/
def lastName? : Expr → Option String
  | .name s => some s
  | .ternary _ _ no => lastName? no
  | _ => none

/-- Is the name that of a function of the program? -/
def namesFunction (environment : Environment) (c : ScopeChain) (s : String) : Bool :=
  match c.resolve environment s with
  | .ok e =>
    match e.location with
    | .entry _ => true
    | _ => false
  | .error _ => false

/-- The expression is no call of a choice whose last arm is the name of a function.  In the code of
such a call, the load of the function at the end becomes the call, and the other arms jump over it. -/
def callsDirectly (environment : Environment) (c : ScopeChain) : Expr → Bool
  | .call (.ternary _ _ no) _ =>
    match lastName? no with
    | some s => !namesFunction environment c s
    | none => true
  | _ => true

/-- Can the code of the expression jump over its last instruction? -/
def joins : Expr → Bool
  | .ternary .. => true
  | .binary op _ _ => op.isLogical
  | _ => false

section Back

variable {L : Layout} {strict : Prop} {r : Room} {c : ScopeChain} {P : Nat → Nat → Prop} {lo hi : Nat}
  {ok : Expr → Bool} {e : Expr} {p q k : Nat} {d : Draft} {t : Ty} {a : Bool} {o : Opcode}

/-- The property goes back along the instructions from `lo` up to `hi`. -/
def Back (L : Layout) (strict : Prop) (r : Room) (P : Nat → Nat → Prop) (lo hi : Nat) : Prop :=
  ∀ a k, lo ≤ a → a < hi → OkAt L strict r P a k → P a k

/-- What the expressions that pass the test have: those that are looked at strictly have indices where
they need some, and all calls are direct unless `P` does not mind some values more. -/
structure Suits (L : Layout) (c : ScopeChain) (strict : Prop) (P : Nat → Nat → Prop)
    (ok : Expr → Bool) : Prop where
  binary : ∀ op left right, ok (.binary op left right) = true
  indexed : strict → ∀ e, ok e = true → e.indexed = true
  direct : (∀ a k, P a k → P a (k + 1)) ∨ ∀ e, ok e = true → callsDirectly L.environment c e = true

/-- An expression that can be assigned to ends in its last instruction. -/
theorem joins_of_assignable (h : ExprCode L r c e p q d t a) (ha : a = true) : joins e = false := by
  cases h with
  | logical => exact absurd ha nofun
  | ternary => exact absurd ha nofun
  | binary plain => exact plain
  | _ => rfl

/-- Only names and choices end in the load of a function. -/
theorem lastName?_of_loadFunction : {e : Expr} → {p q : Nat} → {d : Draft} → {t : Ty} → {a : Bool} →
    ExprCode L r c e p q d t a → d.opcode = .loadFunction →
    ∃ s, lastName? e = some s ∧ namesFunction L.environment c s = true
  | _, _, _, _, _, _, .function (s := s) name place _ _, _ => by
    refine ⟨s, rfl, ?_⟩
    rw [namesFunction, name]
    simp only [place]
  | _, _, _, _, _, _, .ternary _ _ _ second _ _, h =>
    -- the code of a choice ends with that of its second arm
    have hrest := lastName?_of_loadFunction second h
    hrest
  | _, _, _, _, _, _, .literal (v := v), h => by cases v <;> cases h
  | _, _, _, _, _, _, .template (n := n) _, h => by unfold templateDraft at h; split at h <;> cases h
  | _, _, _, _, _, _, .external _ _, h => by cases h
  | _, _, _, _, _, _, .variable _ _ _ _ _ _ _, h => by cases h
  | _, _, _, _, _, _, .logical .., h => by cases h
  | _, _, _, _, _, _, .callFunction .., h => by cases h
  | _, _, _, _, _, _, .callHost .., h => by cases h
  | _, _, _, _, _, _, .array _, h => by cases h
  | _, _, _, _, _, _, .set _, h => by cases h
  | _, _, _, _, _, _, .object _, h => by cases h
  | _, _, _, _, _, _, .update _ _ _ _ _ load _, h => by
    subst h
    exact absurd load (Write.updateFor?_ne _)
  | _, _, _, _, _, _, .assign _ _ _ _ load, h => by
    subst h
    exact absurd load (Write.storeFor?_ne _)
  | _, _, _, _, _, _, .unary (o := o) computes _ found action, h => by
    have hunary := isUnary_of_emit computes found action
    rw [show o = .loadFunction from h] at hunary
    cases hunary
  | _, _, _, _, _, _, .binary (o := o) plain _ _ _ found action, h => by
    have hbinary := isBinary_of_emit plain found action
    rw [show o = .loadFunction from h] at hbinary
    cases hbinary
  | _, _, _, _, _, _, .member _ found action, h => by
    obtain ⟨w, rfl⟩ := loadMember_of_emit found action
    cases h
  | _, _, _, _, _, _, .index _ _ found action, h => by
    obtain ⟨w, rfl⟩ := loadElement_of_emit found action
    cases h

/-- The callee of a direct call does not jump over its last instruction, if that loads a function. -/
theorem joins_of_direct {arguments : List Expr}
    (hd : callsDirectly L.environment c (.call e arguments) = true)
    (h : ExprCode L r c e p q d t a) (hload : d.opcode = .loadFunction) : joins e = false := by
  obtain ⟨s, hs, hf⟩ := lastName?_of_loadFunction h hload
  cases e with
  | ternary test yes no =>
    rw [callsDirectly, show lastName? no = some s from hs] at hd
    simp [hf] at hd
  | binary op left right => cases hs
  | _ => rfl

theorem skipBranch_test (op : BinaryOp) :
    skipBranch op = .branchFalse ∨ skipBranch op = .branchTrue := by
  unfold skipBranch
  split <;> simp

theorem takes_literal (v : Literal) : takes (literalDraft v).opcode (literalDraft v).operand = 0 := by
  cases v <;> rfl

theorem takes_template (n : Nat) : takes (templateDraft n).opcode (templateDraft n).operand = n := by
  unfold templateDraft
  split
  · next h => exact h.symm
  · exact count_natCast n

theorem gives_of_host (h : o = .loadExternal ∨ Write.leavesHostFunction o = true) : gives o = 1 := by
  rcases h with rfl | h
  · rfl
  · cases o <;> first | rfl | exact absurd h Bool.false_ne_true

/-- Values are dropped. -/
theorem DropCode.back {n : Nat} (hb : Back L strict r P lo hi) (h : DropCode L n p q) (hp : lo ≤ p) (hq : q ≤ hi)
    (hP : P q k) : P p (k + n) := by
  cases h with
  | none => exact hP
  | some _ drop => exact hb _ _ hp (by omega) (.plain drop (.popStack n) rfl hP)

/-- The last instruction of an expression, in place. -/
theorem ExprCode.last_back (hb : Back L strict r P lo hi) (hs : Suits L c strict P ok)
    (h : ExprCode L r c e p (q + 1) d t a) (ht : e.every ok = true)
    (hp : lo ≤ q) (hq : q < hi) (hd : L.Has q d) (hP : P (q + 1) (k + gives d.opcode)) :
    P q (k + takes d.opcode d.operand) :=
  hb _ _ hp hq ((h.ends fun hst => Expr.every_mono (hs.indexed hst) ht).1.okAt hd hP)

mutual

/-- A property that holds where the last instruction of an expression stands, and behind it if the
code can jump over that, holds where the expression begins. -/
theorem ExprCode.back (hb : Back L strict r P lo hi) (hs : Suits L c strict P ok) :
    {e : Expr} → {p q : Nat} → {d : Draft} → {t : Ty} → {a : Bool} →
    ExprCode L r c e p q d t a → {k : Nat} → e.every ok = true → lo ≤ p → q ≤ hi →
    (∀ m, q = m + 1 → P m (k + takes d.opcode d.operand)) → (joins e = true → P q (k + 1)) → P p k
  | _, _, _, _, _, _, .literal (v := v), k, _, _, _, hlast, _ => by
    have := hlast _ rfl
    rwa [takes_literal] at this
  | _, _, _, _, _, _, .template (n := n) code, k, ht, hp, hq, hlast, _ => by
    simp only [Expr.every, Bool.and_eq_true] at ht
    have := hlast _ rfl
    rw [takes_template] at this
    exact code.back hb hs ht.2 hp (by omega) this
  | _, _, _, _, _, _, .external _ _, k, _, _, _, hlast, _ => hlast _ rfl
  | _, _, _, _, _, _, .function _ _ _ _, k, _, _, _, hlast, _ => hlast _ rfl
  | _, _, _, _, _, _, .variable _ _ _ _ _ _ _, k, _, _, _, hlast, _ => hlast _ rfl
  | _, _, _, _, _, _, .update _ code _ _ _ load _, k, ht, hp, hq, hlast, _ => by
    simp only [Expr.every, Bool.and_eq_true] at ht
    refine code.back hb hs ht.2 hp hq (fun m hm => ?_) fun hj => ?_
    · have := hlast m hm
      rwa [(takes_update load).1] at this
    · rw [joins_of_assignable code rfl] at hj
      cases hj
  | _, _, _, _, _, _, .unary computes code found action, k, ht, hp, hq, hlast, _ => by
    simp only [Expr.every, Bool.and_eq_true] at ht
    have := hlast _ rfl
    rw [takes_of_unary (isUnary_of_emit computes found action)] at this
    exact code.back hb hs ht.2 hp (by omega) this
  | _, _, _, _, _, _, .binary plain first second _ found action, k, ht, hp, hq, hlast, _ => by
    simp only [Expr.every, Bool.and_eq_true] at ht
    have hm := first.lt
    have hm' := second.lt
    have := hlast _ rfl
    rw [takes_of_binary (isBinary_of_emit plain found action)] at this
    exact first.back hb hs ht.1.2 hp (by omega) (second.back hb hs ht.2 (by omega) (by omega) this)
  | _, _, _, _, _, _, .logical decides first branch second skip _ _, k, ht, hp, hq, hlast, hj => by
    simp only [Expr.every, Bool.and_eq_true] at ht
    have hm := first.lt
    have hm' := second.lt
    -- both ends of the operator meet behind the constant, one value higher
    have hskip := hb _ (k + 1) (by omega) (by omega) (.jump skip (hj decides))
    refine first.back hb hs ht.1.2 hp (by omega) ?_
    exact hb _ _ (by omega) (by omega) (.branch branch (skipBranch_test _) rfl (hlast _ rfl)
      (second.back hb hs ht.2 (by omega) (by omega) hskip))
  | _, _, _, _, _, _, .ternary choice first skip second _ _, k, ht, hp, hq, hlast, hj => by
    simp only [Expr.every, Bool.and_eq_true] at ht
    have hm := choice.lt
    have hm' := first.lt
    have hm'' := second.lt
    refine choice.back hb hs ht.1.1.2 hp (by omega) ?_ ?_
    · exact first.back hb hs ht.1.2 (by omega) (by omega)
        (hb _ _ (by omega) (by omega) (.jump skip (hj rfl)))
    · exact second.back hb hs ht.2 (by omega) hq hlast fun _ => hj rfl
  | _, _, _, _, _, _, .member code found action, k, ht, hp, hq, hlast, _ => by
    simp only [Expr.every, Bool.and_eq_true] at ht
    obtain ⟨w, rfl⟩ := loadMember_of_emit found action
    exact code.back hb hs ht.2 hp (by omega) (hlast _ rfl)
  | _, _, _, _, _, _, .index code rest found action, k, ht, hp, hq, hlast, _ => by
    simp only [Expr.every, Bool.and_eq_true] at ht
    have hm := code.lt
    have hm' := rest.le
    obtain ⟨w, rfl⟩ := loadElement_of_emit found action
    have := hlast _ rfl
    rw [takes, count_natCast, Nat.add_comm _ 1, ← Nat.add_assoc] at this
    exact code.back hb hs ht.1.2 hp (by omega) (rest.back hb hs ht.2 (by omega) (by omega) this)
  | _, _, _, _, _, _, .callFunction code target entry call drop, k, ht, hp,
      hq, hlast, _ => by
    have hd := hs.direct.imp id fun h => h _ (Expr.every_self ht)
    simp only [Expr.every, Bool.and_eq_true] at ht
    have hm := code.le
    have hm' := target.lt
    have hm'' := drop.le
    have hdrop := DropCode.back hb drop (by omega) (by omega) (hlast _ rfl)
    refine code.back hb hs ht.2 hp (by omega) (target.back hb hs ht.1.2 (by omega) (by omega) ?_ fun hj => ?_)
    · rintro m hm
      obtain rfl := Nat.succ.inj hm
      exact hb _ _ (by omega) (by omega) (.call call entry drop rfl hdrop)
    · rcases hd with hup | hd
      · exact hup _ _ hdrop
      · rw [joins_of_direct hd target rfl] at hj
        cases hj
  | _, _, _, _, _, _, @ExprCode.callHost _ _ _ _ arguments _ _ _ _ _ _ _ _ code target load host call, k, ht, hp, hq,
      hlast, _ => by
    simp only [Expr.every, Bool.and_eq_true] at ht
    have hm := code.le
    have hm' := target.lt
    -- the arguments and the function are below the call, one value is behind it
    have hcall : P _ (k + arguments.length + 1) := hb _ _ (by omega) (by omega)
      (.plain call (.callExternal arguments.length) rfl (hlast _ rfl))
    refine code.back hb hs ht.2 hp (by omega) (target.back hb hs ht.1.2 (by omega) (by omega) ?_ fun _ => hcall)
    rintro m hm
    obtain rfl := Nat.succ.inj hm
    refine target.last_back hb hs ht.1.2 (by omega) (by omega) load ?_
    rw [gives_of_host (host.imp id And.left)]
    exact hcall
  | _, _, _, _, _, _, @ExprCode.assign _ _ _ op target value _ _ _ _ _ _ _ _ stored code _ _ load, k,
      ht, hp, hq, hlast, _ => by
    simp only [Expr.every, Bool.and_eq_true] at ht
    have hm := stored.lt
    have hm' := code.lt
    have hvalue : (storedExpr op target value).every ok = true := by
      unfold storedExpr
      split
      · simp [Expr.every, hs.binary, ht.1.2, ht.2]
      · exact ht.2
    refine stored.back hb hs hvalue hp (by omega) (code.back hb hs ht.1.2 (by omega) hq (fun m hm => ?_) fun hj => ?_)
    · have := hlast m hm
      rw [(takes_store load).1] at this
      rwa [Nat.add_right_comm, Nat.add_assoc]
    · rw [joins_of_assignable code rfl] at hj
      cases hj
  | _, _, _, _, _, _, .array code, k, ht, hp, hq, hlast, _ => by
    simp only [Expr.every, Bool.and_eq_true] at ht
    have := hlast _ rfl
    rw [takes, count_natCast] at this
    exact code.back hb hs ht.2 hp (by omega) this
  | _, _, _, _, _, _, .set code, k, ht, hp, hq, hlast, _ => by
    simp only [Expr.every, Bool.and_eq_true] at ht
    have := hlast _ rfl
    rw [takes, count_natCast] at this
    exact code.back hb hs ht.2 hp (by omega) this
  | _, _, _, _, _, _, .object code, k, ht, hp, hq, hlast, _ => by
    simp only [Expr.every, Bool.and_eq_true] at ht
    have := hlast _ rfl
    rw [takes, count_natCast] at this
    exact code.back hb hs ht.2 hp (by omega) this

/-- Behind an expression that leaves a value there is one value more. -/
theorem ValueCode.back (hb : Back L strict r P lo hi) (hs : Suits L c strict P ok) :
    {e : Expr} → {p q : Nat} → {t : Ty} → ValueCode L r c e p q t → {k : Nat} →
    e.every ok = true → lo ≤ p → q ≤ hi → P q (k + 1) → P p k
  | _, _, _, _, .value code last leaves, k, ht, hp, hq, hP => by
    have hm := code.lt
    refine code.back hb hs ht hp hq ?_ fun _ => hP
    rintro m hm
    obtain rfl := Nat.succ.inj hm
    refine code.last_back hb hs ht (by omega) (by omega) last ?_
    rwa [code.gives_eq_one leaves]

theorem ValuesCode.back (hb : Back L strict r P lo hi) (hs : Suits L c strict P ok) :
    {es : List Expr} → {p q : Nat} → {types : List Ty} →
    ValuesCode L r c es p q types → {k : Nat} → everyIn ok es = true → lo ≤ p → q ≤ hi →
    P q (k + es.length) → P p k
  | _, _, _, _, .nil, k, _, _, _, hP => hP
  | _, _, _, _, .cons first others, k, ht, hp, hq, hP => by
    simp only [everyIn, Bool.and_eq_true] at ht
    have hm := first.lt
    have hm' := others.le
    rw [List.length_cons, Nat.add_comm _ 1, ← Nat.add_assoc] at hP
    exact first.back hb hs ht.1 hp (by omega) (others.back hb hs ht.2 (by omega) hq hP)

theorem FieldsCode.back (hb : Back L strict r P lo hi) (hs : Suits L c strict P ok) :
    {fields : List (String × Expr)} → {p q : Nat} →
    FieldsCode L r c fields p q → {k : Nat} → everyField ok fields = true → lo ≤ p → q ≤ hi →
    P q (k + 2 * fields.length) → P p k
  | _, _, _, .nil, k, _, _, _, hP => hP
  | _, _, _, .cons name first others, k, ht, hp, hq, hP => by
    simp only [everyField, everyOf, Bool.and_eq_true] at ht
    have hm := first.lt
    have hm' := others.le
    rw [List.length_cons, Nat.mul_add, Nat.add_comm _ (2 * 1), ← Nat.add_assoc] at hP
    exact hb _ k hp (by omega) (.plain name (.str _) rfl
      (first.back hb hs ht.1 (by omega) (by omega) (others.back hb hs ht.2 (by omega) hq hP)))

theorem PartsCode.back (hb : Back L strict r P lo hi) (hs : Suits L c strict P ok) :
    {chunks : List String} → {parts : List Expr} → {p q n : Nat} →
    PartsCode L r c chunks parts p q n → {k : Nat} → everyIn ok parts = true → lo ≤ p → q ≤ hi →
    P q (k + n) → P p k
  | _, _, _, _, _, .done, k, _, _, _, hP => hP
  | _, _, _, _, _, .text (n := n) _ load rest, k, ht, hp, hq, hP => by
    have hm := rest.le
    rw [Nat.add_comm n 1, ← Nat.add_assoc] at hP
    exact hb _ k hp (by omega) (.plain load (.str _) rfl (rest.back hb hs ht (by omega) hq hP))
  | _, _, _, _, _, .noText _ rest, k, ht, hp, hq, hP => rest.back hb hs ht hp hq hP

theorem PieceCode.back (hb : Back L strict r P lo hi) (hs : Suits L c strict P ok) :
    {chunks : List String} → {parts : List Expr} → {p q n : Nat} →
    PieceCode L r c chunks parts p q n → {k : Nat} → everyIn ok parts = true → lo ≤ p → q ≤ hi →
    P q (k + n) → P p k
  | _, _, _, _, _, .none rest, k, ht, hp, hq, hP => rest.back hb hs ht hp hq hP
  | _, _, _, _, _, .some (n := n) code rest, k, ht, hp, hq, hP => by
    simp only [everyIn, Bool.and_eq_true] at ht
    have hm := code.lt
    have hm' := rest.le
    rw [Nat.add_comm n 1, ← Nat.add_assoc] at hP
    exact code.back hb hs ht.1 hp (by omega) (rest.back hb hs ht.2 (by omega) hq hP)

/-- A condition leaves no value, and leads to one of two places. -/
theorem CondCode.back (hb : Back L strict r P lo hi) (hs : Suits L c strict P ok) :
    {e : Expr} → {p q no : Nat} → CondCode L r c e p q no → {k : Nat} →
    e.every ok = true → lo ≤ p → q ≤ hi → P q k → P no k → P p k
  | _, _, _, _, .branch code branch, k, ht, hp, hq, hP, hno => by
    have hm := code.lt
    exact code.back hb hs ht hp (by omega) (hb _ _ (by omega) (by omega) (.branch branch (.inl rfl) rfl hno hP))
  | _, _, _, _, .merged _ first second _ _ _ branch, k, ht, hp, hq, hP, hno => by
    simp only [Expr.every, Bool.and_eq_true] at ht
    have hm := first.lt
    have hm' := second.lt
    exact first.back hb hs ht.1.2 hp (by omega) (second.back hb hs ht.2 (by omega) (by omega)
      (hb _ _ (by omega) (by omega) (.branchInt branch rfl hno hP)))

end

/-- An expression whose value is dropped leaves at most that of a name of the host that has no value's
type. -/
theorem DroppedCode.back (hb : Back L strict r P lo hi) (hs : Suits L c strict P ok)
    (h : DroppedCode L r c e p q) (ht : e.every ok = true) (hp : lo ≤ p)
    (hq : q ≤ hi) (hP : P q k) (hP' : P q (k + 1)) : P p k := by
  cases h with
  | void code last =>
    have hm := code.lt
    refine code.back hb hs ht hp hq ?_ fun _ => hP'
    rintro m hm
    obtain rfl := Nat.succ.inj hm
    refine code.last_back hb hs ht (by omega) (by omega) last ?_
    rcases gives_eq_zero_or_one _ with h | h <;> rwa [h]
  | drop code drop =>
    have hm := code.lt
    exact code.back hb hs ht hp (by omega) (hb _ _ (by omega) (by omega) (.plain drop (.popStack 1) rfl hP))

end Back

end StackScript.Assembly
