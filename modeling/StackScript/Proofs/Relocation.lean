import StackScript.Proofs.Rearrangement
import StackScript.Proofs.Streams

/-!
# Programs with their instructions at other places

Merging comparisons into branches, and another order of functions, leave the instructions of a program
as they are but for their places.

* `Relocates`: the instructions of a program stand in another one, at the places that a map names.
* `Twin.relocates`: twins that are finished become such programs.
* `compile_merging`, `compile_permuted`: what the two ways of compiling a tree come to.
-/

namespace StackScript.Assembly

open Typing Bytecode Host Syntax Assembly.Write

/-! ### Other places -/

/-- The operand of an instruction, where the instruction that it names has moved. -/
inductive OperandMoved (g : Nat → Nat) (op : Opcode) : Operand → Operand → Prop
  | plain {x : Operand} (h : isPlain op = true) : OperandMoved g op x x
  | target {t : Nat} (h : isPlain op = false) : OperandMoved g op (.int t) (.int (g t))

/-- An instruction of a program, found in another one: as it is, or as a comparison and a branch. -/
inductive Found (split : Bool) (g : Nat → Nat) (q : Program) (a : Nat) : Opcode → Operand → Prop
  | same {op : Opcode} {x x' : Operand} (hat : q.code[g a]? = some ⟨.known op, x'⟩)
      (hx : OperandMoved g op x x') (hnext : op ≠ .term → op ≠ .ret → g (a + 1) = g a + 1) : Found split g q a op x
  | split {r : Relation} {t : Nat} {y : Operand} (hs : split = true)
      (hat : q.code[g a]? = some ⟨.known (.compare .int r), y⟩)
      (hat' : q.code[g a + 1]? = some ⟨.known .branchFalse, .int (g t)⟩) (hnext : g (a + 1) = g a + 2) :
      Found split g q a (.branchInt (negation r)) (.int t)

/-- The instructions of the program `p` stand in `q`, that at `a` at the place `g a`.  With `split`, a
branch on two integers stands there as a comparison and a branch. -/
structure Relocates (split : Bool) (g : Nat → Nat) (p q : Program) : Prop where
  version : q.version = p.version
  injective : Function.Injective g
  start : g 0 = 0
  code : ∀ (a : Nat) op x, p.code[a]? = some ⟨.known op, x⟩ → Found split g q a op x

namespace Relocates

variable {g g' : Nat → Nat} {p q r : Program}

/-- Places that are moved twice. -/
theorem trans (h : Relocates false g p q) (h' : Relocates false g' q r) : Relocates false (g' ∘ g) p r := by
  refine ⟨h'.version.trans h.version, h'.injective.comp h.injective, (congrArg g' h.start).trans h'.start,
    fun a op x hat => ?_⟩
  cases h.code a op x hat with
  | split hs => cases hs
  | @same _ _ x' hat' hx hnext =>
    cases h'.code _ op x' hat' with
    | split hs => cases hs
    | @same _ _ x'' hat'' hx' hnext' =>
      refine .same hat'' ?_ fun hterm hret => ?_
      · cases hx with
        | plain hop =>
          cases hx' with
          | plain => exact .plain hop
          | target hop' => rw [hop] at hop'; cases hop'
        | target hop =>
          cases hx' with
          | plain hop' => rw [hop] at hop'; cases hop'
          | target => exact .target hop
      · show g' (g (a + 1)) = g' (g a) + 1
        rw [hnext hterm hret, hnext' hterm hret]

end Relocates

/-! ### Where an instruction lands -/

theorem flatten_getElem? {α : Type} {lists : List (List α)} {n : Nat} {a : α} (h : lists.flatten[n]? = some a) :
    ∃ k i list, lists[k]? = some list ∧ list[i]? = some a ∧ n = (lists.take k).flatten.length + i := by
  induction lists generalizing n with
  | nil => cases h
  | cons first rest ih =>
    rw [List.flatten_cons] at h
    by_cases hn : n < first.length
    · rw [List.getElem?_append_left hn] at h
      exact ⟨0, n, first, rfl, h, by simp⟩
    · rw [List.getElem?_append_right (Nat.le_of_not_lt hn)] at h
      obtain ⟨k, i, list, hk, hi, he⟩ := ih h
      refine ⟨k + 1, i, list, hk, hi, ?_⟩
      rw [List.take_succ_cons, List.flatten_cons, List.length_append]
      omega

section Lands

variable {split : Bool} {T : Pairing} {w w₁ w₂ : Writer} {n : Nat}

/-- The program that a complete writer is finished to. -/
def Writer.finished (w : Writer) : Program := .ofCode w.streams.flatten.toArray

theorem Writer.finished_at {b i : Nat} {d : Draft} (h : w.at b i = some d) :
    w.finished.code[w.base b + i]? = some (w.linked d) := by
  have hb := Writer.buffer_lt_of_size (Nat.lt_of_le_of_lt (Nat.zero_le _) (Writer.at_lt h))
  have hlt : b < w.streams.length := by rwa [w.streams_length]
  have hstream := List.getElem?_eq_getElem hlt
  have hi : i < (w.streams[b]).length := by
    rw [Writer.streams_length_at hstream]
    exact Writer.at_lt h
  show w.streams.flatten.toArray[w.base b + i]? = _
  rw [List.getElem?_toArray, Writer.base_eq_startOf hb, getElem?_flatten_startOf hstream hi,
    Writer.streams_at hstream, h]
  rfl

theorem Writer.at_of_finished {a : Nat} {instruction : Instruction} (h : w.finished.code[a]? = some instruction) :
    ∃ b i d, w.at b i = some d ∧ a = w.base b + i ∧ instruction = w.linked d := by
  have h : w.streams.flatten.toArray[a]? = some instruction := h
  rw [List.getElem?_toArray] at h
  obtain ⟨b, i, code, hb, hi, rfl⟩ := flatten_getElem? h
  rw [Writer.streams_at hb] at hi
  obtain ⟨d, hd, rfl⟩ := Option.map_eq_some_iff.1 hi
  have hlt := Writer.buffer_lt_of_size (Nat.lt_of_le_of_lt (Nat.zero_le _) (Writer.at_lt hd))
  exact ⟨b, i, d, hd, by rw [Writer.base_eq_startOf hlt, startOf], rfl⟩

theorem Writer.base_add_lt {b i : Nat} (h : i < w.sizeOf b) : w.base b + i < w.finished.code.size := by
  obtain ⟨d, hd⟩ := w.at_isSome h
  exact (Array.getElem?_eq_some_iff.1 (Writer.finished_at hd)).1

/-- Different places have different indices. -/
theorem Writer.base_add_inj {b i c j : Nat} (hi : i < w.sizeOf b) (hj : j < w.sizeOf c)
    (h : w.base b + i = w.base c + j) : b = c ∧ i = j := by
  obtain rfl : b = c := by
    rw [← Writer.owner_base hi, h, Writer.owner_base hj]
  exact ⟨rfl, Nat.add_left_cancel h⟩

/-- The instruction of the left program with this index stands at that index on the right.  Behind the
programs, indices are counted on. -/
inductive Lands (split : Bool) (T : Pairing) (w₁ w₂ : Writer) : Nat → Nat → Prop
  | written {b b' i : Nat} (hb : T.buffers b b') (hi : i < w₁.sizeOf b) :
      Lands split T w₁ w₂ (w₁.base b + i) (w₂.base b' + w₁.offset split b i)
  | behind (k : Nat) : Lands split T w₁ w₂ (w₁.finished.code.size + k) (w₂.finished.code.size + k)

variable (h : Twin split T w₁ w₂)
include h

theorem Twin.offset_lt_size {b b' i : Nat} (hb : T.buffers b b') (hi : i < w₁.sizeOf b) :
    w₁.offset split b i < w₂.sizeOf b' := by
  rw [(h.code b b' hb).size]
  exact Writer.offset_lt hi

theorem Lands.unique {a c d : Nat} (hc : Lands split T w₁ w₂ a c) (hd : Lands split T w₁ w₂ a d) : c = d := by
  generalize ha : a = a' at hd
  cases hc with
  | @written b b' i hb hi =>
    cases hd with
    | @written c c' j hc hj =>
      obtain ⟨rfl, rfl⟩ := Writer.base_add_inj hi hj ha
      obtain rfl := (h.buffer_iff _ _ _ _ hb hc).1 rfl
      rfl
    | behind k =>
      have := Writer.base_add_lt hi
      omega
  | behind k =>
    cases hd with
    | written hc hj =>
      have := Writer.base_add_lt hj
      omega
    | behind k' =>
      obtain rfl := Nat.add_left_cancel ha
      rfl

theorem Lands.injective {a c d : Nat} (ha : Lands split T w₁ w₂ a d) (hc : Lands split T w₁ w₂ c d) : a = c := by
  generalize hd : d = d' at hc
  cases ha with
  | @written b b' i hb hi =>
    have hlt := h.offset_lt_size hb hi
    cases hc with
    | @written c c' j hc hj =>
      obtain ⟨rfl, hij⟩ := Writer.base_add_inj hlt (h.offset_lt_size hc hj) hd
      obtain rfl := (h.buffer_iff _ _ _ _ hb hc).2 rfl
      rw [(w₁.offset_strictMono split b).injective hij]
    | behind k =>
      have := Writer.base_add_lt hlt
      omega
  | behind k =>
    cases hc with
    | written hc hj =>
      have := Writer.base_add_lt (h.offset_lt_size hc hj)
      omega
    | behind k' =>
      obtain rfl := Nat.add_left_cancel hd
      rfl

omit h in
theorem Lands.exists (hcovered : ∀ b < w₁.buffers.size, ∃ b', T.buffers b b') (a : Nat) :
    ∃ a', Lands split T w₁ w₂ a a' := by
  by_cases ha : a < w₁.finished.code.size
  · obtain ⟨b, i, d, hd, rfl, -⟩ := Writer.at_of_finished (Array.getElem?_eq_getElem ha)
    have hi := Writer.at_lt hd
    obtain ⟨b', hb⟩ := hcovered b (Writer.buffer_lt_of_size (Nat.lt_of_le_of_lt (Nat.zero_le _) hi))
    exact ⟨_, .written hb hi⟩
  · obtain ⟨k, rfl⟩ := Nat.exists_eq_add_of_le (Nat.le_of_not_lt ha)
    exact ⟨_, .behind k⟩

/-! ### Finished twins -/

omit h in
theorem Complete.last {b i : Nat} {d : Draft} (hw : Complete n w) (hd : w.at b i = some d)
    (hlast : i + 1 = w.sizeOf b) : d.opcode = .term ∨ d.opcode = .ret := by
  have hb := Writer.buffer_lt_of_size (Nat.lt_of_le_of_lt (Nat.zero_le _) (Writer.at_lt hd))
  have hi : i = w.sizeOf b - 1 := by omega
  rw [hi] at hd
  cases b with
  | zero =>
    rw [hw.main] at hd
    obtain rfl := Option.some.inj hd
    exact .inl rfl
  | succ b =>
    rw [hw.bodies b (by have := hw.count; omega)] at hd
    obtain rfl := Option.some.inj hd
    exact .inr rfl

omit h in
/-- What names an instruction in a complete program names one that was written. -/
theorem Complete.target {b i : Nat} {op : Opcode} {x : Operand} (hw : Complete n w) (hd : w.at b i = some ⟨op, x⟩)
    (hop : isPlain op = false) : ∃ l pt, x = .label l ∧ w.labels.get? l = some pt := by
  have hcases : IsJump op ∨ NamesFunction op := by
    cases op <;> first | (simp [IsJump, NamesFunction]; done) | cases hop
  rcases hcases with hj | hn
  · obtain ⟨l, j, rfl, hget, -⟩ := hw.branches b i op x hd hj
    exact ⟨l, _, rfl, hget⟩
  · obtain ⟨l, k, rfl, -, hget⟩ := hw.names b i op x hd hn
    exact ⟨l, _, rfl, hget⟩

/-- Operands of finished twins name the same instruction. -/
theorem Twin.operand_moved (hw₁ : Complete n w₁) (hloose : ∀ l, ¬ T.loose l) {g : Nat → Nat}
    (hg : ∀ a, Lands split T w₁ w₂ a (g a)) {b i : Nat} {op op' : Opcode} {x x' : Operand}
    (hd : w₁.at b i = some ⟨op, x⟩) (hx : OperandTwin T x x') :
    OperandMoved g op (w₁.linked ⟨op, x⟩).operand (w₂.linked ⟨op', x'⟩).operand := by
  cases hop : isPlain op with
  | false =>
    obtain ⟨l, p, rfl, hget⟩ := hw₁.target hd hop
    cases hx with
    | same hclosed => cases hclosed
    | @label _ l' hl =>
      have hbound := h.bound l l' hl (hloose l)
      rw [hget] at hbound
      generalize hget' : w₂.labels.get? l' = found at hbound
      cases hbound with
      | @some _ q hpoint =>
        have hplace := (hg _).unique h (.written hpoint.buffer hpoint.lt)
        rw [← hpoint.position] at hplace
        simp only [Writer.linked, hget, hget', Option.elim_some, ← hplace]
        exact .target hop
  | true =>
    have hplain := hw₁.plain b i op x hd (by rintro (h | h | h | ⟨_, h⟩) <;> subst h <;> cases hop)
      (by rintro (h | h) <;> subst h <;> cases hop)
    cases hx with
    | label => exact absurd rfl (hplain _)
    | same hclosed =>
      cases x with
      | label => cases hclosed
      | _ => exact .plain hop

/-- Twins that are complete become programs with the same instructions at other places. -/
theorem Twin.relocates (hw₁ : Complete n w₁) (hmain : T.buffers 0 0)
    (hcovered : ∀ b < w₁.buffers.size, ∃ b', T.buffers b b') (hloose : ∀ l, ¬ T.loose l) :
    ∃ g, Relocates split g w₁.finished w₂.finished := by
  choose g hg using Lands.exists hcovered
  refine ⟨g, rfl, fun a c hac => (hg a).injective h (hac ▸ hg c), ?_, fun a op x hat => ?_⟩
  · have hpos : 0 < w₁.sizeOf 0 := by
      obtain ⟨k, hk⟩ := hw₁.rooms 0 (by have := hw₁.count; omega)
      exact Writer.at_lt hk
    -- the first buffer starts the program on both sides
    have hzero : ∀ {w : Writer}, w.base 0 = 0 := fun {w} => by
      unfold Writer.base
      cases w.buffers.toList <;> rfl
    have hplace := (hg _).unique h (.written hmain hpos)
    rwa [hzero, hzero] at hplace
  · obtain ⟨b, i, ⟨op', y⟩, hd, rfl, he⟩ := Writer.at_of_finished hat
    obtain ⟨hop, rfl⟩ := Instruction.mk.inj he
    obtain rfl := Operation.known.inj hop
    have hi := Writer.at_lt hd
    obtain ⟨b', hb⟩ := hcovered b (Writer.buffer_lt_of_size (Nat.lt_of_le_of_lt (Nat.zero_le _) hi))
    have hplace := (hg _).unique h (.written hb hi)
    -- behind an instruction that goes on there is another one in the same buffer
    have hnext : op ≠ .term → op ≠ .ret → g (w₁.base b + i + 1) = g (w₁.base b + i) + Draft.width split ⟨op, y⟩ := by
      intro hterm hret
      have hlt : i + 1 < w₁.sizeOf b := by
        refine Nat.lt_of_le_of_ne hi fun hlast => ?_
        rcases hw₁.last hd hlast with h | h
        · exact hterm h
        · exact hret h
      rw [hplace, Nat.add_assoc, (hg _).unique h (.written hb hlt), Writer.offset_succ split hd, Nat.add_assoc]
    generalize hdraft : (⟨op, y⟩ : Draft) = d at hd
    cases (h.code b b' hb).at_ i d hd with
    | @same _ x hwidth hat' hx =>
      subst hdraft
      rw [hwidth] at hnext
      have hfound := Writer.finished_at hat'
      rw [← hplace] at hfound
      exact .same hfound (h.operand_moved hw₁ hloose hg hd hx) hnext
    | @split r x x' z hs hat' hat'' hx =>
      obtain ⟨rfl, rfl⟩ := Draft.mk.inj hdraft
      subst hs
      -- the fused branch on the left is a comparison and a branch on the right
      have hmoved : OperandMoved g (.branchInt (negation r)) _ (w₂.linked ⟨.branchFalse, x'⟩).operand :=
        h.operand_moved hw₁ hloose hg hd hx
      have hfound := Writer.finished_at hat'
      have hfound' := Writer.finished_at hat''
      rw [← Nat.add_assoc, ← hplace] at hfound'
      rw [← hplace] at hfound
      show Found true g w₂.finished _ _ (w₁.linked ⟨.branchInt (negation r), y⟩).operand
      generalize (w₁.linked ⟨.branchInt (negation r), y⟩).operand = u at hmoved
      generalize hu : (w₂.linked ⟨.branchFalse, x'⟩).operand = u' at hmoved
      have hlinked : w₂.linked ⟨.branchFalse, x'⟩ = ⟨.known .branchFalse, u'⟩ := by
        rw [← hu]
        rfl
      rw [hlinked] at hfound'
      cases hmoved with
      | plain hop => cases hop
      | target => exact .split rfl hfound hfound' (hnext nofun nofun)

end Lands

/-! ### Programs written twice -/

/-- At the start only the main streams belong together. -/
def Pairing.start : Pairing := ⟨fun _ _ => False, fun b b' => b = 0 ∧ b' = 0, fun _ _ => False, fun _ => False⟩

/-- Writers that have written nothing are twins. -/
theorem Twin.start (split : Bool) : Twin split .start .empty .empty where
  returns := rfl
  scopes := ⟨⟨rfl, fun _ => .none⟩, .nil, rfl, rfl⟩
  level := rfl
  breaks := .nil
  own := ⟨fun _ h => absurd h List.not_mem_nil, fun _ h => absurd h List.not_mem_nil⟩
  buffer := ⟨rfl, rfl⟩
  label_lt _ _ h := h.elim
  label_iff _ _ _ _ h := h.elim
  buffer_lt := by
    rintro _ _ ⟨rfl, rfl⟩
    exact ⟨Nat.one_pos, Nat.one_pos⟩
  buffer_iff := by
    rintro _ _ _ _ ⟨rfl, rfl⟩ ⟨rfl, rfl⟩
    exact ⟨fun _ => rfl, fun _ => rfl⟩
  unbound := ⟨fun _ _ => rfl, fun _ _ => rfl⟩
  waiting := .nil
  bound _ _ h := h.elim
  code := by
    rintro _ _ ⟨rfl, rfl⟩
    exact ⟨rfl, fun i d hd => absurd (Writer.at_lt hd) (Nat.not_lt_zero i)⟩
  holes _ _ h := h.elim

variable {split : Bool} {s₁ s₂ : Setting} {body body' : List Stmt}

theorem program_eq (setting : Setting) (body : List Stmt) : Write.program setting body = (do
    put .allocStack (.int 0)
    let left ← (do hoist body; topLevel setting body)
    if !left then put .loadNull .none
    put .term .none) := by
  simp only [Write.program, bind_assoc]

/-- Programs with statements that are written to twins. -/
theorem program_parallel
    (h : Parallel split Equal (do hoist body; topLevel s₁ body) (do hoist body'; topLevel s₂ body')) :
    Parallel split Any (Write.program s₁ body) (Write.program s₂ body') := by
  intro T w₁ w₂ ht
  rw [program_eq, program_eq]
  have hput : ∀ {T' v₁ v₂} {op : Opcode} {x : Operand}, Twin split T' v₁ v₂ → isPlain op = true → isClosed x = true →
      Together split T' v₁ v₂ Any (put op x) (put op x) := fun ht hop hx =>
    (Together.put ht (by rintro r rfl; cases hop) (.same hx)).mono fun _ _ _ _ _ _ _ => trivial
  refine (hput ht rfl rfl).bind fun _ _ _ _ _ hp _ => ?_
  refine (h hp.twin).bind fun _ _ _ left left' hp₁ hleft => ?_
  rw [show left' = left from hleft]
  cases left with
  | true => exact hput hp₁.twin rfl rfl
  | false => exact (hput hp₁.twin rfl rfl).bind fun _ _ _ _ _ hp₂ _ => hput hp₂.twin rfl rfl

/-- What two trees come to: both are refused, or the programs differ only in where instructions stand. -/
inductive CompileAlike (split : Bool) : Except CompileError Program → Except CompileError Program → Prop
  | error (e e' : CompileError) : CompileAlike split (.error e) (.error e')
  | ok {g : Nat → Nat} {p q : Program} (h : Relocates split g p q) : CompileAlike split (.ok p) (.ok q)

theorem CompileAlike.trans {x y z : Except CompileError Program} (h : CompileAlike false x y)
    (h' : CompileAlike false y z) : CompileAlike false x z := by
  cases h with
  | error e _ =>
    cases h' with
    | error _ e' => exact .error e e'
  | ok h =>
    cases h' with
    | ok h' => exact .ok (h.trans h')

theorem compileWith_eq (setting : Setting) (body : List Stmt) : compileWith setting body =
    (Write.program setting body .empty).map fun r => r.2.finished := by
  unfold compileWith
  show (Write.program setting body .empty >>= fun r => r.2.finish) = _
  cases h : Write.program setting body .empty with
  | error e => rfl
  | ok r => exact (program_complete h).finish

/-- Trees that are written to twins. -/
theorem compile_alike
    (h : Parallel split Equal (do hoist body; topLevel s₁ body) (do hoist body'; topLevel s₂ body')) :
    CompileAlike split (compileWith s₁ body) (compileWith s₂ body') := by
  rw [compileWith_eq, compileWith_eq]
  have hwritten := program_parallel h (.start split)
  unfold Together at hwritten
  generalize hx : Write.program s₁ body .empty = x, Write.program s₂ body' .empty = y at hwritten
  cases hwritten with
  | error e e' => exact .error e e'
  | @ok T w₁ w₂ _ _ hp _ =>
    have hloose : ∀ l, ¬ T.loose l := fun l => by
      rw [hp.loose]
      exact id
    have hmain : T.buffers 0 0 := hp.grows.buffers 0 0 ⟨rfl, rfl⟩
    have hcovered : ∀ b < w₁.buffers.size, ∃ b', T.buffers b b' := fun b hb => by
      cases b with
      | zero => exact ⟨0, hmain⟩
      | succ b => exact hp.covered.1 _ (Nat.succ_le_succ (Nat.zero_le b)) hb
    obtain ⟨g, hg⟩ := hp.twin.relocates (program_complete hx) hmain hcovered hloose
    exact .ok hg

/-- Functions of a statement list in another order: both trees are refused, or the programs differ only
in where instructions stand. -/
theorem compile_permuted (setting : Setting) (h : Somewhere Permuted body body') :
    CompileAlike false (compileWith setting body) (compileWith setting body') := by
  have hsame : ∀ body, CompileAlike false (compileWith setting body) (compileWith setting body) := fun body =>
    compile_alike fun _ _ _ h => (Together.hoist h body).bind fun _ _ _ _ _ hp _ =>
      topLevel_parallel (.same setting) body hp.twin
  have hsteps := h.exchanges
  clear h
  induction hsteps with
  | refl => exact hsame body
  | tail _ h ih => exact ih.trans (compile_alike (topLevel_exchanged (.same setting) h))

end StackScript.Assembly
