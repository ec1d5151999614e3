import StackScript.Machine.Run
import StackScript.Proofs.Rules

/-!
# What an instruction does to the top of the stack

* `Local`: a computation that looks at the top of the stack only.  Whatever lies below, wherever the
  machine stands, it ends in the same way (`Report`).
* `Effect`: how many values an operation takes and how many it leaves.
* `perform_local`: an operation that is no branch and names no variable is local, takes and leaves as
  many values as it is said to, and never fails because code does not fit together.
-/

namespace StackScript.Machine

open Bytecode Host

/-- What a machine has but for its stack and its place in the program. -/
structure World where
  returned : Value
  heap : Heap
  output : String

def State.world (s : State) : World := ⟨s.returned, s.heap, s.output⟩

/-- A machine with this stack, at this place. -/
def World.state (w : World) (stack : Array Value) (ip fp : Nat) : State :=
  ⟨stack, ip, fp, w.returned, w.heap, w.output⟩

theorem State.world_state (s : State) : s.world.state s.stack s.ip s.fp = s := rfl

/-- Does the fault say that code does not fit together? -/
def Fault.structural : Fault → Bool
  | .invalidOpcode _ | .outOfBounds _ | .invalidOperand _ _ | .invalidSlot _ _ | .stackUnderflow _ =>
    true
  | _ => false

/-- Does the fault lie in the values that are computed with? -/
def Fault.ofValues : Fault → Bool
  | .typeError _ _ | .listTooLong _ _ | .divisionByZero => true
  | _ => false

theorem Fault.not_structural {f : Fault} (h : f.ofValues = true) : f.structural = false := by
  cases f <;> first | rfl | cases h

theorem int32OfInt?_toInt (n : Int32) : Decimal.int32OfInt? n.toInt = some n := by
  have hlow := n.le_toInt
  have hhigh := n.toInt_lt
  rw [Decimal.int32OfInt?, if_pos (by omega), Int32.ofInt_toInt]

theorem shrink_append (xs ys : Array Value) : (xs ++ ys).shrink xs.size = xs := by simp

/-! ### Faults of values -/

/-- If the computation fails, this lies in the values. -/
def Benign {α : Type} (x : Except Fault α) : Prop := ∀ f, x = .error f → f.ofValues = true

namespace Benign

variable {α β : Type} {h : Heap} {v : Value}

theorem ok {a : α} : Benign (.ok a) := nofun

theorem error {f : Fault} (hf : f.ofValues = true) : Benign (.error f : Except Fault α) :=
  fun _ he => Except.error.inj he ▸ hf

theorem bind {x : Except Fault α} {f : α → Except Fault β} (hx : Benign x)
    (hf : ∀ a, x = .ok a → Benign (f a)) : Benign (x >>= f) := by
  cases x with
  | ok a => exact hf a rfl
  | error e => exact error (hx e rfl)

theorem intArith {op : Arith} {a b : Int32} : Benign (Exec.intArith op a b) := by
  cases op <;> simp only [Exec.intArith] <;> first
    | exact ok
    | (split <;> first | exact error rfl | exact ok)

theorem bump {u : Update} : Benign (bump u v) := by
  cases v <;> first | exact ok | exact error rfl

theorem loadMember {name : String} : Benign (loadMember h v name) := by
  unfold Machine.loadMember
  dsimp only
  split
  · split <;> first | exact ok | exact error rfl
  · exact ok
  · split <;> first | exact ok | exact error rfl
  · split <;> first | exact ok | exact error rfl
  · exact error rfl

theorem storeMember {name : String} {new : Value} : Benign (storeMember v name new) := by
  unfold Machine.storeMember
  split <;> first | exact ok | exact error rfl

theorem placeOf : Benign (placeOf v) := by
  cases v <;> first | exact ok | exact error rfl

theorem fieldOf : Benign (fieldOf v) := by
  cases v <;> first | exact ok | exact error rfl

theorem loadElement {index : Value} : Benign (loadElement h v index) := by
  unfold Machine.loadElement
  split
  · exact placeOf.bind fun _ _ => ok
  · exact placeOf.bind fun _ _ => ok
  · exact ok
  · exact fieldOf.bind fun _ _ => ok
  · exact error rfl

theorem loadPath {indices : List Value} : Benign (loadPath h v indices) := by
  induction indices generalizing v with
  | nil => exact ok
  | cons index rest ih => exact loadElement.bind fun _ _ => ih

theorem storeElement {max : Nat} {index new : Value} : Benign (storeElement h max v index new) := by
  unfold Machine.storeElement
  split
  · refine placeOf.bind fun _ _ => ?_
    split
    · split <;> first | exact ok | exact error rfl
    all_goals exact error rfl
  · exact fieldOf.bind fun _ _ => ok
  · exact error rfl

theorem pairUp : (vs : List Value) → Benign (Exec.pairUp vs)
  | [] => ok
  | [v] => by cases v <;> exact ok
  | key :: v :: rest => by
    cases key with
    | str => exact (pairUp rest).bind fun _ _ => ok
    | ref shape r => cases shape <;> exact error rfl
    | _ => exact error rfl

end Benign

/-! ### Local computations -/

/-- How a computation ends, and what it leaves on the part of the stack that it looks at. -/
inductive Report (α : Type) where
  | done (a : α) (stack : Array Value) (world : World)
  | failed (f : Fault) (stack : Array Value) (world : World)

namespace Report

variable {α : Type}

/-- The end of a computation on top of a stack. -/
def place (base : Array Value) (ip fp : Nat) : Report α → EStateM.Result Fault State α
  | done a stack w => .ok a (w.state (base ++ stack) ip fp)
  | failed f stack w => .error f (w.state (base ++ stack) ip fp)

/-- A computation that ends as is wanted, or fails for another reason than code that does not fit
together. -/
def Meets (post : α → Array Value → World → Prop) : Report α → Prop
  | done a stack w => post a stack w
  | failed f _ _ => f.structural = false

end Report

/-- The computation looks only at `args`, the top of the stack, and meets `post` if it ends. -/
def Local {α : Type} (x : Exec α) (post : α → Array Value → World → Prop) (args : Array Value)
    (w : World) : Prop :=
  ∃ r : Report α, (∀ base ip fp, x (w.state (base ++ args) ip fp) = r.place base ip fp) ∧ r.Meets post

namespace Local

variable {α β : Type} {post : α → Array Value → World → Prop} {args : Array Value} {w : World}

theorem mono {post' : α → Array Value → World → Prop} {x : Exec α} (h : Local x post args w)
    (hp : ∀ a vs w', post a vs w' → post' a vs w') : Local x post' args w := by
  obtain ⟨r, hr, hm⟩ := h
  refine ⟨r, hr, ?_⟩
  cases r with
  | done a vs w' => exact hp a vs w' hm
  | failed => exact hm

theorem pure {a : α} (h : post a args w) : Local (Pure.pure a) post args w :=
  ⟨.done a args w, fun _ _ _ => rfl, h⟩

theorem throw {f : Fault} (h : f.structural = false) :
    Local (MonadExcept.throw f : Exec α) post args w :=
  ⟨.failed f args w, fun _ _ _ => rfl, h⟩

theorem bind {x : Exec β} {f : β → Exec α} (h : Local x (fun b => Local (f b) post) args w) :
    Local (x >>= f) post args w := by
  obtain ⟨r, hr, hm⟩ := h
  cases r with
  | done b vs w' =>
    obtain ⟨r', hr', hm'⟩ := hm
    refine ⟨r', fun base ip fp => ?_, hm'⟩
    rw [← hr' base ip fp]
    show EStateM.bind x f _ = _
    rw [EStateM.bind, hr]
    rfl
  | failed e vs w' =>
    refine ⟨.failed e vs w', fun base ip fp => ?_, hm⟩
    show EStateM.bind x f _ = _
    rw [EStateM.bind, hr]
    rfl

theorem map {x : Exec β} {f : β → α} (h : Local x (fun b => post (f b)) args w) :
    Local (f <$> x) post args w := by
  rw [map_eq_pure_bind]
  exact bind (h.mono fun _ _ _ => pure)

theorem lift {x : Except Fault α} (h : Benign x)
    (hp : ∀ a, x = .ok a → post a args w) : Local (Exec.lift x) post args w := by
  cases x with
  | ok a => exact pure (hp a rfl)
  | error f => exact throw (Fault.not_structural (h f rfl))

/-! ### Steps on the stack -/

theorem push {v : Value} {post : Unit → Array Value → World → Prop} (h : post () (args.push v) w) :
    Local (Exec.push v) post args w := by
  refine ⟨.done () (args.push v) w, fun base ip fp => ?_, h⟩
  show EStateM.Result.ok () (w.state ((base ++ args).push v) ip fp) = _
  rw [Array.push_append]
  rfl

theorem pop (args : Array Value) {post : Value → Array Value → World → Prop} {v : Value}
    (h : post v args w) : Local Exec.pop post (args.push v) w := by
  refine ⟨.done v args w, fun base ip fp => ?_, h⟩
  rw [Array.append_push]
  simp [Exec.pop, World.state, Report.place]

theorem popMany {post : Array Value → Array Value → World → Prop} {vs : Array Value} {n : Nat}
    (hn : vs.size = n) (h : post vs args w) : Local (Exec.popMany n) post (args ++ vs) w := by
  subst hn
  refine ⟨.done vs args w, fun base ip fp => ?_, h⟩
  have hsize : (base ++ (args ++ vs)).size - vs.size = (base ++ args).size := by simp; omega
  show (if vs.size ≤ (base ++ (args ++ vs)).size then _ else _) = _
  rw [if_pos (by simp; omega)]
  simp only [World.state, Report.place, hsize]
  have htop : (base ++ (args ++ vs)).extract (base ++ args).size (base ++ (args ++ vs)).size = vs := by
    rw [← Array.append_assoc]
    simp
  have hrest : (base ++ (args ++ vs)).shrink (base ++ args).size = base ++ args := by
    rw [← Array.append_assoc, shrink_append]
  rw [htop, hrest]

theorem readHeap {f : Heap → α} (h : post (f w.heap) args w) :
    Local (Exec.readHeap f) post args w := ⟨.done (f w.heap) args w, fun _ _ _ => rfl, h⟩

theorem withHeap {f : Heap → α × Heap}
    (h : post (f w.heap).1 args { w with heap := (f w.heap).2 }) :
    Local (Exec.withHeap f) post args w :=
  ⟨.done (f w.heap).1 args { w with heap := (f w.heap).2 }, fun _ _ _ => rfl, h⟩

/-- What depends on the machine only by the heap. -/
theorem heap (f : Heap → Exec α) (h : Local (f w.heap) post args w) :
    Local (get >>= fun s => f s.heap) post args w := by
  obtain ⟨r, hr, hm⟩ := h
  exact ⟨r, fun base ip fp => hr base ip fp, hm⟩

theorem mistaken {task : Task} {v : Value} : Local (Exec.mistaken task v : Exec α) post args w :=
  ⟨.failed (.typeError task (.one (v.typeName))) args w, fun _ _ _ => rfl, rfl⟩

theorem mistakenPair {task : Task} {a b : Value} :
    Local (Exec.mistakenPair task a b : Exec α) post args w :=
  ⟨.failed (.typeError task (.two (a.typeName) (b.typeName))) args w, fun _ _ _ => rfl, rfl⟩

theorem popInt (args : Array Value) {task : Task} {v : Value} {post : Int32 → Array Value → World → Prop}
    (h : ∀ n, v = .int n → post n args w) : Local (Exec.popInt task) post (args.push v) w := by
  refine bind (pop args ?_)
  split
  · exact pure (h _ rfl)
  · exact mistaken

theorem popFloat (args : Array Value) {task : Task} {v : Value} {post : Float → Array Value → World → Prop}
    (h : ∀ x, number? v = some x → post x args w) : Local (Exec.popFloat task) post (args.push v) w := by
  refine bind (pop args ?_)
  split
  · next hx => exact pure (h _ hx)
  · exact mistaken

theorem store {plan : Heap → Except Fault (Ref × Write)} {post : Unit → Array Value → World → Prop}
    (h : Benign (plan w.heap))
    (hp : ∀ h, post () args { w with heap := h }) : Local (Exec.store plan) post args w := by
  refine heap (fun h => Exec.lift (plan h) >>= fun target =>
    Exec.withHeap fun h => ((), h.write target.1 target.2)) ?_
  exact bind (lift h fun _ _ => withHeap (hp _))

end Local

/-! ### Operations -/

/-- How many values an operation takes from the stack, and how many it leaves there. -/
inductive Effect : Opcode → Operand → Nat → Nat → Prop
  | popStack (n : Nat) : Effect .popStack (.int n) n 0
  | loadNull {x} : Effect .loadNull x 0 1
  | bool (b) : Effect (.loadConst .w8) (.bool b) 0 1
  | int (n : Int32) : Effect (.loadConst .w32) (.int n.toInt) 0 1
  | float (x) : Effect (.loadConst .w64) (.float x) 0 1
  | str (s) : Effect (.loadConst .w64) (.str s) 0 1
  | binary {op x} (h : Typing.isBinary op = true) : Effect op x 2 1
  | unary {op x} (h : Typing.isUnary op = true) : Effect op x 1 1
  | loadMember (s) {w} : Effect (.loadMember w) (.str s) 1 1
  | storeMember (s) {w} : Effect (.storeMember w) (.str s) 2 0
  | updateMember (s) {u} : Effect (.updateMember u) (.str s) 1 0
  | loadElement (n : Nat) {w} : Effect (.loadElement w) (.int n) (n + 1) 1
  | storeElement (n : Nat) {w} : Effect (.storeElement w) (.int (n + 1 : Nat)) (n + 3) 0
  | updateElement (n : Nat) {u} : Effect (.updateElement u) (.int (n + 1 : Nat)) (n + 2) 0
  | newArray (n : Nat) : Effect .newArray (.int n) n 1
  | newSet (n : Nat) : Effect .newSet (.int n) n 1
  | newObject (n : Nat) : Effect .newObject (.int n) (2 * n) 1
  | buildString (n : Nat) : Effect .buildString (.int n) n 1
  | loadFunction (t : Nat) : Effect .loadFunction (.int t) 0 1
  | callExternal (n : Nat) : Effect .callExternal (.int n) (n + 1) 0
  | loadExternal (s) : Effect .loadExternal (.str s) 0 1
  | pushReturn {w x} : Effect (.pushReturn w) x 0 1

section Operations

variable {limits : Limits} {environment : Environment} {args : Array Value} {w : World} {op : Opcode}
  {x : Operand}

/-- Leaves so many values. -/
abbrev Leaves (n : Nat) (_ : Unit) (vs : Array Value) (_ : World) : Prop := vs.size = n

theorem countOperand_local {n : Nat} {post : Nat → Array Value → World → Prop} (h : post n args w) :
    Local (Exec.countOperand op (.int n)) post args w := by
  refine .bind (.pure ?_)
  rw [if_pos (Int.natCast_nonneg n), Int.toNat_natCast]
  exact .pure h

/-- Leaves the stack as it is. -/
abbrev Keeps {α : Type} (args : Array Value) (_ : α) (vs : Array Value) (_ : World) : Prop := vs = args

theorem anyArith_local {o : Arith} {a b : Value} : Local (Exec.anyArith o a b) (Keeps args) args w := by
  have hjoined : Local (do
      let h := (← get).heap
      return Value.str (h.display a ++ h.display b)) (Keeps args) args w :=
    .heap (fun h => pure (Value.str (h.display a ++ h.display b))) (.pure rfl)
  unfold Exec.anyArith
  split
  · exact .bind (.lift Benign.intArith fun _ _ => .pure rfl)
  · exact hjoined
  · exact hjoined
  · split
    · exact .pure rfl
    · exact .mistakenPair

theorem arith_local {d : Domain} {o : Arith} {a b : Value} :
    Local (Exec.arith d o) (Leaves 1) #[a, b] w := by
  cases d with
  | int =>
    refine .bind (.popInt #[a] fun y _ => .bind (.popInt #[] fun x _ => ?_))
    exact .bind (.lift Benign.intArith fun _ _ => .push rfl)
  | float =>
    exact .bind (.popFloat #[a] fun y _ => .bind (.popFloat #[] fun x _ => .push rfl))
  | any =>
    refine .bind (.pop #[a] (.bind (.pop #[] (.bind ?_))))
    exact anyArith_local.mono fun _ _ _ h => .push (by rw [h]; rfl)

theorem anyHolds_local {r : Relation} {a b : Value} : Local (Exec.anyHolds r a b) (Keeps args) args w := by
  unfold Exec.anyHolds
  split
  · exact .pure rfl
  · exact .pure rfl
  · split
    · exact .pure rfl
    · exact .mistakenPair

theorem popEqual_local {a b : Value} : Local Exec.popEqual (Keeps #[]) #[a, b] w :=
  .bind (.pop #[a] (.bind (.pop #[] (.readHeap rfl))))

theorem compare_local {d : Domain} {r : Relation} {a b : Value} :
    Local (Exec.compare d r) (Leaves 1) #[a, b] w := by
  have hequal : ∀ f : Bool → Bool, Local (do Exec.push (.bool (f (← Exec.popEqual)))) (Leaves 1) #[a, b] w :=
    fun f => .bind (popEqual_local.mono fun _ _ _ h => .push (by rw [h]; rfl))
  have horder : Local (do
      let b ← Exec.pop
      let a ← Exec.pop
      Exec.push (.bool (← Exec.anyHolds r a b))) (Leaves 1) #[a, b] w :=
    .bind (.pop #[a] (.bind (.pop #[] (.bind
      (anyHolds_local.mono fun _ _ _ h => .push (by rw [h]; rfl))))))
  cases d with
  | int =>
    exact .bind (.popInt #[a] fun y _ => .bind (.popInt #[] fun x _ => .push rfl))
  | float =>
    exact .bind (.popFloat #[a] fun y _ => .bind (.popFloat #[] fun x _ => .push rfl))
  | any =>
    cases r with
    | eq => exact hequal id
    | ne => exact hequal not
    | _ => exact horder

theorem negate_local {d : Domain} {a : Value} : Local (Exec.negate d) (Leaves 1) #[a] w := by
  cases d with
  | int => exact .bind (.popInt #[] fun _ _ => .push rfl)
  | float => exact .bind (.popFloat #[] fun _ _ => .push rfl)
  | any =>
    refine .bind (.pop #[] ?_)
    cases a <;> first | exact .push rfl | exact .mistaken

theorem concat_local {a b : Value} : Local Exec.concat (Leaves 1) #[a, b] w := by
  refine .bind (.pop #[a] (.bind (.pop #[] ?_)))
  split
  · exact .push rfl
  · exact .mistakenPair

theorem floatToInt_local {a : Value} : Local Exec.floatToInt (Leaves 1) #[a] w := by
  refine .bind (.popFloat #[] fun x _ => ?_)
  split
  · exact .push rfl
  · exact .throw rfl

/-- An operation that combines two values. -/
theorem binary_local {a b : Value} (h : Typing.isBinary op = true) :
    Local (Exec.perform limits environment op x) (Leaves 1) #[a, b] w := by
  have hequal : ∀ f : Bool → Bool, Local (do Exec.push (.bool (f (← Exec.popEqual)))) (Leaves 1) #[a, b] w :=
    fun f => .bind (popEqual_local.mono fun _ _ _ h => .push (by rw [h]; rfl))
  cases op with
  | arith d o => exact arith_local
  | compare d r => exact compare_local
  | concat => exact concat_local
  | equal s => exact hequal id
  | notEqual s => exact hequal not
  | _ => cases h

/-- An operation that turns one value into another. -/
theorem unary_local {a : Value} (h : Typing.isUnary op = true) :
    Local (Exec.perform limits environment op x) (Leaves 1) #[a] w := by
  cases op with
  | negate d => exact negate_local
  | notBool => exact .bind (.pop #[] (.push rfl))
  | notAny => exact .bind (.pop #[] (.push rfl))
  | intToFloat => exact .bind (.popInt #[] fun _ _ => .push rfl)
  | floatToInt => exact floatToInt_local
  | intToString => exact .bind (.pop #[] (.bind (.readHeap (.push rfl))))
  | floatToString => exact .bind (.pop #[] (.bind (.readHeap (.push rfl))))
  | _ => cases h

/-- The values on top of some others. -/
theorem exists_append {args : Array Value} {m n : Nat} (h : args.size = m + n) :
    ∃ front vs : Array Value, args = front ++ vs ∧ front.size = m ∧ vs.size = n := by
  refine ⟨args.extract 0 m, args.extract m args.size, ?_, by simp; omega, by simp; omega⟩
  rw [Array.extract_append_extract, Nat.max_eq_right (by omega)]
  simp

theorem exists_singleton {args : Array Value} (h : args.size = 1) : ∃ v, args = #[v] :=
  Array.size_eq_one_iff.1 h

theorem exists_pair {args : Array Value} (h : args.size = 2) : ∃ a b, args = #[a, b] := by
  obtain ⟨front, vs, rfl, hf, hv⟩ := exists_append (m := 1) (n := 1) h
  obtain ⟨a, rfl⟩ := exists_singleton hf
  obtain ⟨b, rfl⟩ := exists_singleton hv
  exact ⟨a, b, rfl⟩

/-- An operation that takes `n` values after its operand, and goes on with them. -/
theorem counted_local {n : Nat} {f : Array Value → Exec Unit} {post : Unit → Array Value → World → Prop}
    {front vs : Array Value} (hn : vs.size = n) (h : Local (f vs) post front w) :
    Local (do f (← Exec.popMany (← Exec.countOperand op (.int n)))) post (front ++ vs) w :=
  .bind (countOperand_local (.bind (.popMany hn h)))

theorem pushNew_local {shape : Shape} {cell : Heap → Cell} :
    Local (Exec.pushNew shape cell) (Leaves 1) #[] w :=
  .bind (.withHeap (.push rfl))

/-- A container whose indices are followed, all but the last one. -/
theorem elementTarget_local (args : Array Value) {n : Nat} {v : Value} {indices : Array Value}
    {post : Value × Value → Array Value → World → Prop} (hn : indices.size = n + 1)
    (h : ∀ p, post p args w) :
    Local (Exec.elementTarget op (.int (n + 1 : Nat))) post (args.push v ++ indices) w := by
  refine .bind (countOperand_local (.bind (.popMany hn (.bind (.pop args ?_)))))
  split
  · next hback =>
    rw [Array.back?_eq_none_iff] at hback
    rw [hback] at hn
    cases hn
  · next last _ =>
    exact .heap (fun h => do
      let container ← Exec.lift (loadPath h v indices.pop.toList)
      return (container, last)) (.bind (.lift Benign.loadPath fun _ _ => .pure (h _)))

theorem callHost_local {callee : Value} {arguments : List Value} :
    Local (Exec.callHost environment callee arguments) (Leaves 0) #[] w := by
  cases callee with
  | host f =>
    cases ha : environment.call f arguments w.heap w.output with
    | mk value heap output =>
      cases value with
      | ok v =>
        refine ⟨.done () #[] ⟨v, heap, output⟩, fun base ip fp => ?_, rfl⟩
        simp only [Exec.callHost, World.state, ha]
        rfl
      | error e =>
        refine ⟨.failed (.hostFailure f.name e) #[] ⟨w.returned, heap, output⟩, fun base ip fp => ?_, rfl⟩
        simp only [Exec.callHost, World.state, ha]
        rfl
  | _ => exact ⟨.failed (.notCallable (Value.typeName _)) #[] w, fun _ _ _ => rfl, rfl⟩

/-- An operation looks only at the values that it takes, leaves as many as it should, and never
fails because code does not fit together. -/
theorem perform_local {m n : Nat} (h : Effect op x m n) (hs : args.size = m) :
    Local (Exec.perform limits environment op x) (Leaves n) args w := by
  have hnone : ∀ {m}, m = 0 → args.size = m → args = #[] := fun h hs =>
    Array.eq_empty_of_size_eq_zero (hs.trans h)
  cases h with
  | popStack k =>
    rw [← @Array.empty_append _ args]
    exact .bind (countOperand_local (.map (.popMany hs rfl)))
  | loadNull =>
    obtain rfl := hnone rfl hs
    exact .push rfl
  | bool b =>
    obtain rfl := hnone rfl hs
    exact .push rfl
  | int k =>
    obtain rfl := hnone rfl hs
    refine .bind (.pure ?_)
    rw [int32OfInt?_toInt]
    exact .push rfl
  | float y =>
    obtain rfl := hnone rfl hs
    exact .push rfl
  | str s =>
    obtain rfl := hnone rfl hs
    exact .push rfl
  | binary hop =>
    obtain ⟨a, b, rfl⟩ := exists_pair hs
    exact binary_local hop
  | unary hop =>
    obtain ⟨a, rfl⟩ := exists_singleton hs
    exact unary_local hop
  | loadMember s =>
    obtain ⟨a, rfl⟩ := exists_singleton hs
    exact .bind (.pure (.bind (.pop #[] (.heap (fun h => do
      Exec.push (← Exec.lift (loadMember h a s)))
      (.bind (.lift Benign.loadMember fun _ _ => .push rfl))))))
  | storeMember s =>
    obtain ⟨a, b, rfl⟩ := exists_pair hs
    refine .bind (.pure (.bind (.pop #[a] (.bind (.pop #[] ?_)))))
    exact .store Benign.storeMember fun _ => rfl
  | updateMember s =>
    obtain ⟨a, rfl⟩ := exists_singleton hs
    refine .bind (.pure (.bind (.pop #[] ?_)))
    exact .store (Benign.loadMember.bind fun _ _ => Benign.bump.bind fun _ _ => Benign.storeMember)
      fun _ => rfl
  | loadElement k =>
    obtain ⟨front, vs, rfl, hf, hv⟩ := exists_append (hs.trans (Nat.add_comm _ _))
    obtain ⟨a, rfl⟩ := exists_singleton hf
    exact .bind (countOperand_local (.bind (.popMany hv (.bind (.pop #[] (.heap (fun h => do
      Exec.push (← Exec.lift (loadPath h a vs.toList)))
      (.bind (.lift Benign.loadPath fun _ _ => .push rfl))))))))
  | storeElement k =>
    obtain ⟨front, vs, rfl, hf, hv⟩ := exists_append (m := 2) (n := k + 1) (hs.trans (by omega))
    -- below the indices stand the new value and the collection
    obtain ⟨new, a, rfl⟩ := exists_pair hf
    refine .bind (elementTarget_local #[new] hv fun p => ?_)
    exact .bind (.pop #[] (.store Benign.storeElement fun _ => rfl))
  | updateElement k =>
    obtain ⟨front, vs, rfl, hf, hv⟩ := exists_append (m := 1) (n := k + 1) (hs.trans (by omega))
    obtain ⟨a, rfl⟩ := exists_singleton hf
    refine .bind (elementTarget_local #[] hv fun p => .store ?_ fun _ => rfl)
    exact Benign.loadElement.bind fun _ _ => Benign.bump.bind fun _ _ => Benign.storeElement
  | newArray k =>
    rw [← @Array.empty_append _ args]
    exact counted_local hs pushNew_local
  | newSet k =>
    rw [← @Array.empty_append _ args]
    exact counted_local hs pushNew_local
  | newObject k =>
    rw [← @Array.empty_append _ args]
    exact .bind (countOperand_local (.bind (.popMany hs (.bind
      (.lift (Benign.pairUp _) fun _ _ => pushNew_local)))))
  | buildString k =>
    rw [← @Array.empty_append _ args]
    exact .bind (countOperand_local (.bind (.popMany hs (.bind (.readHeap (.push rfl))))))
  | loadFunction t =>
    obtain rfl := hnone rfl hs
    exact .bind (countOperand_local (.push rfl))
  | callExternal k =>
    obtain ⟨front, vs, rfl, hf, hv⟩ := exists_append hs
    obtain ⟨callee, rfl⟩ := exists_singleton hv
    rw [← @Array.empty_append _ front, Array.append_singleton]
    exact .bind (countOperand_local (.bind (.pop _ (.bind (.popMany hf callHost_local)))))
  | loadExternal s =>
    obtain rfl := hnone rfl hs
    refine .bind (.pure ?_)
    split
    · exact .bind (.withHeap (.push rfl))
    · exact .throw rfl
  -- the returned value is read from the state, and no argument is taken
  | pushReturn =>
    obtain rfl := hnone rfl hs
    exact ⟨.done () #[w.returned] w, fun base ip fp => by
      show EStateM.Result.ok () (w.state (base.push w.returned) ip fp) = _
      simp [Report.place], rfl⟩

end Operations

end StackScript.Machine
