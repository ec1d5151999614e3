import Mathlib.Tactic.Common
import StackScript.Assembly.ExprCode

/-!
# What the typing rules emit

For each kind of rule, the operations that its code can end in.
-/

namespace StackScript.Typing

open Syntax Bytecode

def isBinary : Opcode → Bool
  | .arith _ _ | .compare _ _ | .concat | .equal _ | .notEqual _ => true
  | _ => false

def isUnary : Opcode → Bool
  | .negate _ | .notBool | .notAny | .intToFloat | .floatToInt | .intToString | .floatToString => true
  | _ => false

namespace Ty

/-- An operator whose operands are both evaluated is one instruction. -/
theorem binaryRule?_emits {t : Ty} {op : BinaryOp} {r : Rule} (h : t.binaryRule? op = some r)
    (hop : op.isLogical = false) :
    ∃ o, r.action = .emit o ∧ isBinary o = true ∧ r.result ≠ .void ∧ r.assignable = false := by
  unfold binaryRule? at h
  split at h
  · next a d ha hd =>
    obtain rfl := Option.some.inj h
    refine ⟨_, rfl, rfl, ?_, rfl⟩
    rintro (rfl : t = .void)
    exact absurd hd (by simp [domain?])
  · obtain rfl := Option.some.inj h
    exact ⟨_, rfl, rfl, nofun, rfl⟩
  · obtain ⟨-, h⟩ := Option.ite_none_right_eq_some.1 h
    obtain rfl := Option.some.inj h
    exact ⟨_, rfl, rfl, nofun, rfl⟩
  · obtain ⟨_, -, rfl⟩ := Option.map_eq_some_iff.1 h
    exact ⟨_, rfl, rfl, nofun, rfl⟩
  · obtain ⟨_, -, rfl⟩ := Option.map_eq_some_iff.1 h
    exact ⟨_, rfl, rfl, nofun, rfl⟩
  · next hm => cases op <;> simp [Meaning.ofOp, BinaryOp.isLogical] at hm hop
  · exact absurd h (by simp)

/-- `&&` and `||` are branches. -/
theorem binaryRule?_logical {t : Ty} {op : BinaryOp} {r : Rule} (h : t.binaryRule? op = some r)
    (hop : op.isLogical = true) : r = .shortCircuit t ∧ (t = .bool ∨ t = .any) := by
  have hm : Meaning.ofOp op = .logical := by cases op <;> first | rfl | exact absurd hop (by decide)
  rw [binaryRule?, hm] at h
  obtain ⟨ht, h⟩ := Option.ite_none_right_eq_some.1 h
  obtain rfl := Option.some.inj h
  exact ⟨rfl, by simpa using ht⟩

theorem unaryRule?_emits {t : Ty} {op : UnaryOp} {r : Rule} (h : t.unaryRule? op .before = some r)
    (hop : op = .minus ∨ op = .not) :
    ∃ o, r.action = .emit o ∧ isUnary o = true ∧ r.result ≠ .void ∧ r.assignable = false := by
  rcases hop with rfl | rfl
  · obtain ⟨d, hd, rfl⟩ := Option.map_eq_some_iff.1 h
    refine ⟨_, rfl, rfl, ?_, rfl⟩
    rintro rfl
    exact absurd hd (by simp [domain?])
  · unfold unaryRule? at h
    split at h
    all_goals first | contradiction | skip
    split at h
    all_goals first | contradiction | skip
    all_goals
      obtain rfl := Option.some.inj h
      exact ⟨_, rfl, rfl, nofun, rfl⟩

/-- `++` and `--` change a variable in place, of a type with arithmetic. -/
theorem unaryRule?_updates {t : Ty} {op : UnaryOp} {s : Side} {r : Rule}
    (h : t.unaryRule? op s = some r) (hop : op = .increment ∨ op = .decrement) :
    r = .update (if op = .increment then .increment else .decrement) := by
  rcases hop with rfl | rfl
  · obtain ⟨d, -, rfl⟩ := Option.map_eq_some_iff.1 h
    rfl
  · obtain ⟨d, -, rfl⟩ := Option.map_eq_some_iff.1 h
    rfl

theorem slotRule?_eq_some {t : Ty} {a : Area} {r : Rule} :
    t.slotRule? a = some r ↔ t ≠ .void ∧ r = .load (.load a t.width) t := by
  unfold slotRule?
  by_cases h : t = .void
  · rw [if_pos (beq_iff_eq.2 h)]
    exact iff_of_false nofun fun h' => h'.1 h
  · rw [if_neg (fun hb => h (beq_iff_eq.1 hb)), Option.some_inj]
    exact ⟨fun hr => ⟨h, hr.symm⟩, fun hr => hr.2.symm⟩

theorem memberRule?_emits {t : Ty} {r : Rule} (h : t.memberRule? = some r) :
    ∃ w, r.action = .emit (.loadMember w) ∧ r.result ≠ .void := by
  unfold memberRule? at h
  split at h
  · obtain rfl := Option.some.inj h
    exact ⟨_, rfl, nofun⟩
  · obtain rfl := Option.some.inj h
    exact ⟨_, rfl, nofun⟩
  · exact absurd h nofun

theorem namedMemberRule?_emits {t : Ty} {field : String} {r : Rule}
    (h : t.namedMemberRule? field = some r) :
    ∃ w, r.action = .emit (.loadMember w) ∧ r.result ≠ .void := by
  unfold namedMemberRule? at h
  split at h
  all_goals first | contradiction | skip
  all_goals
    obtain ⟨-, h⟩ := Option.ite_none_right_eq_some.1 h
    obtain rfl := Option.some.inj h
    exact ⟨_, rfl, nofun⟩

/-- Reading a field is one instruction. -/
theorem fieldRule_emits {t : Ty} {field : String} {r : Rule}
    (h : (t.namedMemberRule? field).or t.memberRule? = some r) :
    ∃ w, r.action = .emit (.loadMember w) ∧ r.result ≠ .void := by
  rcases Option.or_eq_some_iff.1 h with h | ⟨-, h⟩
  · exact namedMemberRule?_emits h
  · exact memberRule?_emits h

/-- Reading an element is one instruction. -/
theorem elementRule?_emits {t : Ty} {r : Rule} (h : t.elementRule? = some r) :
    ∃ w, r.action = .emit (.loadElement w) ∧ r.result ≠ .void := by
  unfold elementRule? at h
  split at h
  all_goals first | contradiction | skip
  all_goals
    obtain rfl := Option.some.inj h
    exact ⟨_, rfl, nofun⟩

/-- A conversion is one instruction. -/
theorem conversion?_unary {found declared : Ty} {o : Opcode}
    (h : found.conversion? declared = some o) : isUnary o = true := by
  unfold conversion? at h
  split at h <;> first | (obtain rfl := Option.some.inj h; rfl) | exact absurd h (by simp)

/-- Types that have a common type are both values' types, and so is it. -/
theorem join?_ne_void {l r t : Ty} (h : Ty.join? l r = some t) (hl : l ≠ .void) : t ≠ .void := by
  unfold join? at h
  split at h
  · obtain rfl := Option.some.inj h
    decide
  · split at h
    · obtain rfl := Option.some.inj h
      exact hl
    · exact absurd h (by simp)

end Ty

end StackScript.Typing

namespace StackScript.Assembly.Write

open Bytecode

/-- Only a load becomes a store. -/
theorem storeFor?_eq_some {o o' : Opcode} (h : storeFor? o = some o') :
    (∃ a w, o = .load a w ∧ o' = .store a w) ∨ (∃ w, o = .loadMember w ∧ o' = .storeMember w) ∨
      ∃ w, o = .loadElement w ∧ o' = .storeElement w := by
  unfold storeFor? at h
  split at h
  all_goals first | (obtain rfl := Option.some.inj h; simp) | exact absurd h (by simp)

/-- Only a load becomes an update. -/
theorem updateFor?_eq_some {u : Update} {o o' : Opcode} (h : updateFor? u o = some o') :
    (∃ a w, o = .load a w ∧ o' = .update a u) ∨ (∃ w, o = .loadMember w ∧ o' = .updateMember u) ∨
      ∃ w, o = .loadElement w ∧ o' = .updateElement u := by
  unfold updateFor? at h
  split at h
  all_goals first | (obtain rfl := Option.some.inj h; simp) | exact absurd h (by simp)

theorem storeFor?_ne (o : Opcode) : storeFor? o ≠ some .loadFunction := by
  intro h
  rcases storeFor?_eq_some h with ⟨_, _, -, h⟩ | ⟨_, -, h⟩ | ⟨_, -, h⟩ <;> cases h

theorem updateFor?_ne {u : Update} (o : Opcode) : updateFor? u o ≠ some .loadFunction := by
  intro h
  rcases updateFor?_eq_some h with ⟨_, _, -, h⟩ | ⟨_, -, h⟩ | ⟨_, -, h⟩ <;> cases h

end StackScript.Assembly.Write
