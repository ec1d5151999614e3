import StackScript.Proofs.Bodies
import StackScript.Proofs.Places
import StackScript.Proofs.ProgramWriting
import StackScript.Proofs.WriteErrors

/-!
# The streams of a finished program

A finished program consists of streams, one for each buffer: the main stream, and behind it one
stream for each function.  `Integral` says how they are closed in themselves: branches stay in their
stream, calls lead to the start of a function, and no stream runs into the next one
(`Integral.advance`).  Every program that compiles is integral (`compile_integral`).
-/

namespace StackScript.Assembly

open Typing Bytecode Host Syntax Assembly.Write

/-- The index of the first instruction of a stream, when streams lie one behind the other. -/
def startOf (streams : List (List Instruction)) (k : Nat) : Nat := (streams.take k).flatten.length

/-- An index of an instruction of a stream. -/
def Within (streams : List (List Instruction)) (k a : Nat) : Prop :=
  ∃ code, streams[k]? = some code ∧ ∃ i < code.length, a = startOf streams k + i

/-- The operations that leave a function. -/
def Returns (op : Opcode) : Prop := op = .ret ∨ ∃ w, op = .retWith w

/-- The program consists of a main stream and as many streams as there are functions, all of them
closed in themselves. -/
structure Integral (functions : Nat) (p : Program) (streams : List (List Instruction)) : Prop where
  /-- The streams lie one behind the other. -/
  laidOut : p.code.toList = streams.flatten
  count : streams.length = functions + 1
  /-- Every stream starts with the room for its variables. -/
  rooms : ∀ code ∈ streams, ∃ n : Nat, code.head? = some ⟨.known .allocStack, .int n⟩
  /-- The main stream ends the run. -/
  main : ∀ code, streams[0]? = some code → code.getLast? = some ⟨.known .term, .none⟩
  /-- A function ends with a return. -/
  bodies : ∀ k code, streams[k + 1]? = some code → code.getLast? = some ⟨.known .ret, .none⟩
  resolved : ∀ code ∈ streams, ∀ i ∈ code, ∀ l, i.operand ≠ .label l
  /-- A branch leads to an instruction of its stream. -/
  branches : ∀ k code op x, streams[k]? = some code → (⟨.known op, x⟩ : Instruction) ∈ code →
    IsJump op → ∃ a, x = .int (a : Nat) ∧ Within streams k a
  /-- What names a function names the start of a function's stream. -/
  names : ∀ code ∈ streams, ∀ op x, (⟨.known op, x⟩ : Instruction) ∈ code → NamesFunction op →
    ∃ k < functions, x = .int (startOf streams (k + 1) : Nat)

/-- A program without functions is one stream. -/
theorem Integral.eq_singleton {p : Program} {streams : List (List Instruction)} (h : Integral 0 p streams) :
    streams = [p.code.toList] := by
  obtain ⟨code, rfl⟩ := List.length_eq_one_iff.1 h.count
  rw [h.laidOut, List.flatten_singleton]

/-! ### What was written at the end -/

/-- A writer with a complete program: all buffers are closed, and all labels in them are bound. -/
structure Complete (functions : Nat) (w : Writer) : Prop where
  count : w.buffers.size = functions + 1
  rooms : ∀ b < w.buffers.size, ∃ n : Nat, w.at b 0 = some ⟨.allocStack, .int n⟩
  main : w.at 0 (w.sizeOf 0 - 1) = some ⟨.term, .none⟩
  bodies : ∀ b < functions, w.at (b + 1) (w.sizeOf (b + 1) - 1) = some ⟨.ret, .none⟩
  branches : ∀ b i op x, w.at b i = some ⟨op, x⟩ → IsJump op →
    ∃ l j, x = .label l ∧ w.labels.get? l = some ⟨b, j⟩ ∧ j < w.sizeOf b
  names : ∀ b i op x, w.at b i = some ⟨op, x⟩ → NamesFunction op →
    ∃ l k, x = .label l ∧ k < functions ∧ w.labels.get? l = some ⟨k + 1, 0⟩
  plain : ∀ b i op x, w.at b i = some ⟨op, x⟩ → ¬ IsJump op → ¬ NamesFunction op → ∀ l, x ≠ .label l

theorem start_intact : Intact [] [] .start := by
  have hat : ∀ {b i d}, Writer.start.at b i = some d → d = ⟨.allocStack, .int (0 : Nat)⟩ :=
    fun {b i d} hd => by
      have hb : b < 1 := Writer.buffer_lt_of_size (Nat.lt_of_le_of_lt (Nat.zero_le _) (Writer.at_lt hd))
      obtain rfl : b = 0 := by omega
      have hi : i < 1 := Writer.at_lt hd
      obtain rfl : i = 0 := by omega
      exact (Option.some.inj hd).symm
  refine ⟨Nat.one_pos, rfl, fun l pt hl => ?_, fun _ _ h => absurd h List.not_mem_nil, fun b hb => ?_,
    fun b i d hd => ?_, fun _ h => absurd h List.not_mem_nil, fun _ h => absurd h List.not_mem_nil,
    fun _ h => absurd h List.not_mem_nil⟩
  · simp [Writer.start, Writer.add, Writer.empty, LabelTable.get?, LabelTable.close,
      LabelTable.empty] at hl
  · have hb' : b < 1 := hb
    obtain rfl : b = 0 := by omega
    exact ⟨0, rfl⟩
  · rw [hat hd]
    exact .plain rfl rfl

/-- The labels of instructions that fit are bound, where nothing waits, lacks a target or is owed. -/
theorem Complete.of_fits {functions : Nat} {w : Writer} (hw : Intact [] [] w)
    (hcount : w.buffers.size = functions + 1) (hbreaks : w.breaks = [])
    (hquiet : ∀ l b, (l, b) ∉ w.labels.waiting) (hmain : w.at 0 (w.sizeOf 0 - 1) = some ⟨.term, .none⟩)
    (hbodies : ∀ b < functions, w.at (b + 1) (w.sizeOf (b + 1) - 1) = some ⟨.ret, .none⟩) :
    Complete functions w := by
  have hfits : ∀ b i d, w.at b i = some d → w.Fits [] [] ⟨b, i⟩ d := fun b i d hd => by
    have := hw.fits b i d hd
    rwa [hbreaks] at this
  have hne : ∀ {op : Opcode}, IsJump op → ¬ NamesFunction op := fun hj hn => by
    rcases hn with rfl | rfl <;> rcases hj with h | h | h | ⟨_, h⟩ <;> cases h
  refine ⟨hcount, hw.rooms, hmain, hbodies, fun b i op x hd hj => ?_, fun b i op x hd hn => ?_,
    fun b i op x hd hj hn => ?_⟩
  · cases hfits b i _ hd with
    | @jump _ l _ hl =>
      obtain ⟨j, hpoint⟩ := hl.points
      rcases hpoint.place with ⟨hget, -⟩ | ⟨-, hwait, -⟩
      · exact ⟨l, j, rfl, hget, (hw.bound l _ hget).2⟩
      · exact absurd hwait (hquiet _ _)
    -- no loop is open any more, so no branch waits for its target
    | hole _ hm => exact absurd hm List.not_mem_nil
    | function hn => exact absurd hn (hne hj)
    | plain hp => exact absurd hp (by simp [hj.not_plain])
  · cases hfits b i _ hd with
    | jump hj => exact absurd hn (hne hj)
    | hole _ hm => exact absurd hm List.not_mem_nil
    | @function _ l _ hl =>
      obtain ⟨c, hc, hlt, hget⟩ := (hl.resolve_right List.not_mem_nil).bound
      obtain ⟨k, rfl⟩ := Nat.exists_eq_add_one_of_ne_zero hc
      exact ⟨l, k, rfl, by omega, hget⟩
    | plain hp => exact absurd hp (by simp [hn.not_plain])
  · cases hfits b i _ hd with
    | jump hj' => exact absurd hj' hj
    | hole hj' => exact absurd hj' hj
    | function hn' => exact absurd hn' hn
    | plain _ hx => exact isClosed_ne_label hx

/-- A program that is written is complete. -/
theorem program_complete {setting : Setting} {body : List Stmt} {w : Writer}
    (h : Write.program setting body .empty = .ok ((), w)) : Complete (bodiesAll body).length w := by
  simp only [Write.program, bind_eq_ok, put_eq_ok] at h
  obtain ⟨_, w₀, hw₀, _, w₁, h₁, left, w₂, h₂, h⟩ := h
  obtain rfl : w₀ = .start := hw₀
  obtain ⟨hs, hp⟩ := topLevel_safe setting body
  have htop := listed_safe hs hp start_intact (bind_eq_ok.2 ⟨(), w₁, h₁, h₂⟩)
  obtain ⟨w₃, hw₃, hw⟩ : ∃ w₃, Weaves [] [] (bodiesAll body).length .start w₃ ∧
      w = w₃.add ⟨.term, .none⟩ := by
    -- a program that leaves no value gets a null before its last instruction
    cases left with
    | true =>
      exact ⟨w₂, htop, by simpa only [Bool.not_true, Bool.false_eq_true, if_false, put_eq_ok] using h⟩
    | false =>
      simp only [Bool.not_false, if_true, bind_eq_ok, put_eq_ok] at h
      obtain ⟨_, _, rfl, h⟩ := h
      exact ⟨_, htop.trans start_intact.valid (n := 0) (htop.intact.put rfl rfl), h⟩
  have hall : Weaves [] [] (bodiesAll body).length .start w := by
    rw [hw]
    exact hw₃.trans start_intact.valid (n := 0)
      (hw₃.intact.put (o := .term) (x := .none) rfl rfl)
  have hbuffer : w₃.buffer = 0 := hw₃.keeps.buffer
  have hcount : w.buffers.size = (bodiesAll body).length + 1 := by
    rw [hall.keeps.count]
    exact Nat.add_comm _ _
  have hfinished : ∀ b < (bodiesAll body).length, w.Finished (b + 1) := fun b hb =>
    hall.keeps.finished _ (Nat.succ_pos b) (by omega)
  refine .of_fits hall.intact hcount (List.length_eq_zero_iff.1 hall.depth) (fun l b hl => ?_) ?_
    fun b hb => (hfinished b hb).last
  · -- a label that waits in the main buffer is closed by the last instruction, one of a function by its return
    have hb := (hall.intact.waiting l b hl).2
    cases b with
    | zero =>
      rw [hw] at hl
      exact ((w₃.labels.close_waiting _ _).1 hl).2 hbuffer.symm
    | succ b => exact (hfinished b (by omega)).quiet l hl
  · rw [hw, ← hbuffer, Writer.add_sizeOf _ _ _ hw₃.intact.valid, if_pos rfl, Nat.add_sub_cancel,
      Writer.add_at _ _ _ _ hw₃.intact.valid, if_pos ⟨rfl, rfl⟩]

/-! ### The finished program -/

/-- The instruction that a draft becomes when all labels are bound. -/
def Writer.linked (w : Writer) (d : Draft) : Instruction :=
  ⟨.known d.opcode, match d.operand with
    | .label l => .int (((w.labels.get? l).elim 0 fun pt => w.base pt.buffer + pt.position) : Nat)
    | x => x⟩

/-- The streams of the finished program. -/
def Writer.streams (w : Writer) : List (List Instruction) :=
  w.buffers.toList.map fun code => code.toList.map w.linked

theorem Writer.streams_length (w : Writer) : w.streams.length = w.buffers.size := by
  rw [Writer.streams, List.length_map, Array.length_toList]

theorem Writer.streams_getElem? {w : Writer} {b : Nat} {code : List Instruction}
    (h : w.streams[b]? = some code) : code = (w.buffers.getD b #[]).toList.map w.linked := by
  rw [Writer.streams, List.getElem?_map, Array.getElem?_toList] at h
  obtain ⟨drafts, hb, rfl⟩ := Option.map_eq_some_iff.1 h
  rw [Array.getD_eq_getD_getElem?, hb, Option.getD_some]

theorem Writer.streams_length_at {w : Writer} {b : Nat} {code : List Instruction}
    (h : w.streams[b]? = some code) : code.length = w.sizeOf b := by
  rw [Writer.streams_getElem? h, List.length_map, Array.length_toList, Writer.sizeOf]

theorem Writer.streams_at {w : Writer} {b i : Nat} {code : List Instruction}
    (h : w.streams[b]? = some code) : code[i]? = (w.at b i).map w.linked := by
  rw [Writer.streams_getElem? h, List.getElem?_map, Array.getElem?_toList, Writer.at]

/-- An instruction of a stream is one that was written. -/
theorem Writer.mem_streams {w : Writer} {b : Nat} {code : List Instruction} {instruction : Instruction}
    (h : w.streams[b]? = some code) (hi : instruction ∈ code) :
    ∃ i d, w.at b i = some d ∧ instruction = w.linked d := by
  obtain ⟨i, hi⟩ := List.getElem?_of_mem hi
  rw [Writer.streams_at h] at hi
  obtain ⟨d, hd, rfl⟩ := Option.map_eq_some_iff.1 hi
  exact ⟨i, d, hd, rfl⟩

theorem basesFrom_take {start : Nat} {buffers : List (Array Draft)} {b : Nat} (hb : b < buffers.length) :
    (basesFrom start buffers)[b]? = some (start + ((buffers.take b).flatMap (·.toList)).length) := by
  induction buffers generalizing start b with
  | nil => exact absurd hb (Nat.not_lt_zero _)
  | cons code rest ih =>
    cases b with
    | zero => rfl
    | succ b =>
      have := @ih (start + code.size) b (Nat.lt_of_succ_lt_succ hb)
      simpa only [basesFrom, List.getElem?_cons_succ, List.take_succ_cons, List.flatMap_cons,
        List.length_append, Array.length_toList, Nat.add_assoc] using this

theorem Writer.base_eq_startOf {w : Writer} {b : Nat} (hb : b < w.buffers.size) :
    w.base b = startOf w.streams b := by
  rw [Writer.base, Array.getD_eq_getD_getElem?, List.getElem?_toArray,
    basesFrom_take (by rwa [Array.length_toList]), startOf, Writer.streams, ← List.map_take,
    Option.getD_some, Nat.zero_add]
  rw [← List.flatMap_def, ← List.map_flatMap, List.length_map]

theorem mapM_eq_map {α β ε : Type} {f : α → Except ε β} {g : α → β} {l : List α}
    (h : ∀ a ∈ l, f a = .ok (g a)) : l.mapM f = .ok (l.map g) := by
  induction l with
  | nil => rfl
  | cons a rest ih =>
    rw [List.mapM_cons, h a List.mem_cons_self, ih fun b hb => h b (List.mem_cons_of_mem _ hb)]
    rfl

variable {functions : Nat} {w : Writer}

/-- A complete writer's labels are all bound, so that it can be finished. -/
theorem Complete.finish (h : Complete functions w) :
    w.finish = .ok (Program.ofCode w.streams.flatten.toArray) := by
  have hresolve : ∀ d ∈ w.buffers.toList.flatMap (·.toList),
      d.resolve w.labels (basesFrom 0 w.buffers.toList).toArray = .ok (w.linked d) := fun d hd => by
    obtain ⟨code, hc, hd⟩ := List.mem_flatMap.1 hd
    obtain ⟨b, hb⟩ := List.getElem?_of_mem hc
    obtain ⟨i, hi⟩ := List.getElem?_of_mem hd
    have hat : w.at b i = some d := by
      rw [Array.getElem?_toList] at hb hi
      rw [Writer.at, Array.getD_eq_getD_getElem?, hb, Option.getD_some, hi]
    obtain ⟨op, x⟩ := d
    by_cases hj : IsJump op
    · obtain ⟨l, j, rfl, hget, -⟩ := h.branches b i op x hat hj
      simp only [Draft.resolve, hget, Writer.linked, Writer.base, Option.elim_some]
      rfl
    by_cases hn : NamesFunction op
    · obtain ⟨l, k, rfl, -, hget⟩ := h.names b i op x hat hn
      simp only [Draft.resolve, hget, Writer.linked, Writer.base, Option.elim_some]
      rfl
    · have hx := h.plain b i op x hat hj hn
      cases x with
      | label l => exact absurd rfl (hx l)
      | _ => rfl
  have hflat : w.streams.flatten = (w.buffers.toList.flatMap (·.toList)).map w.linked := by
    rw [List.map_flatMap, List.flatMap_def, Writer.streams]
  simp only [Writer.finish, Array.mapM_eq_mapM_toList, Array.toList_flatMap, id_eq,
    mapM_eq_map hresolve, hflat]
  rfl

/-- The streams of a complete writer are closed in themselves. -/
theorem Complete.integral (h : Complete functions w) :
    Integral functions (Program.ofCode w.streams.flatten.toArray) w.streams := by
  have hlen := w.streams_length
  have hlt : ∀ {b code}, w.streams[b]? = some code → b < w.buffers.size := fun hb =>
    hlen ▸ (List.getElem?_eq_some_iff.1 hb).1
  have hlast : ∀ {b code op}, w.streams[b]? = some code →
      w.at b (w.sizeOf b - 1) = some ⟨op, .none⟩ → code.getLast? = some ⟨.known op, .none⟩ :=
    fun {b code op} hb hat => by
      rw [List.getLast?_eq_getElem?, Writer.streams_length_at hb, Writer.streams_at hb, hat]
      rfl
  have hmem : ∀ {code instruction}, code ∈ w.streams → instruction ∈ code →
      ∃ b i d, w.streams[b]? = some code ∧ w.at b i = some d ∧ instruction = w.linked d :=
    fun hc hi => by
      obtain ⟨b, hb⟩ := List.getElem?_of_mem hc
      obtain ⟨i, d, hd, he⟩ := Writer.mem_streams hb hi
      exact ⟨b, i, d, hb, hd, he⟩
  refine ⟨List.toList_toArray, hlen.trans h.count, fun code hc => ?_, fun code hb => hlast hb h.main,
    fun k code hb => hlast hb (h.bodies k (by have := hlt hb; have := h.count; omega)),
    fun code hc instruction hi => ?_, fun k code op x hb hi hj => ?_, fun code hc op x hi hn => ?_⟩
  · obtain ⟨b, hb⟩ := List.getElem?_of_mem hc
    obtain ⟨n, hn⟩ := h.rooms b (hlt hb)
    refine ⟨n, ?_⟩
    rw [List.head?_eq_getElem?, Writer.streams_at hb, hn]
    rfl
  · obtain ⟨b, i, ⟨op, x⟩, -, hd, rfl⟩ := hmem hc hi
    -- linking leaves no label behind, whether it is bound or not
    intro l hl
    cases x with
    | label => exact absurd hl (by simp [Writer.linked])
    | _ => exact absurd hl (by simp [Writer.linked])
  · obtain ⟨i, ⟨op', y⟩, hd, he⟩ := Writer.mem_streams hb hi
    obtain ⟨hop, hx⟩ := Instruction.mk.inj he
    obtain rfl := Operation.known.inj hop
    obtain ⟨l, j, rfl, hget, hj⟩ := h.branches k i op y hd hj
    refine ⟨startOf w.streams k + j, ?_, code, hb, j, by rwa [Writer.streams_length_at hb], rfl⟩
    simp only [hx, hget, Option.elim_some, Writer.base_eq_startOf (hlt hb)]
  · obtain ⟨b, i, ⟨op', y⟩, hb, hd, he⟩ := hmem hc hi
    obtain ⟨hop, hx⟩ := Instruction.mk.inj he
    obtain rfl := Operation.known.inj hop
    obtain ⟨l, k, rfl, hk, hget⟩ := h.names b i op y hd hn
    refine ⟨k, hk, ?_⟩
    have hk' : k + 1 < w.buffers.size := by have := h.count; omega
    simp only [hx, hget, Option.elim_some, Writer.base_eq_startOf hk', Nat.add_zero]

/-! ### Running through streams -/

section Run

open Machine

variable {functions : Nat} {p : Program} {streams : List (List Instruction)}

theorem getElem?_flatten_startOf {k i : Nat} {code : List Instruction} (h : streams[k]? = some code)
    (hi : i < code.length) : streams.flatten[startOf streams k + i]? = code[i]? := by
  induction streams generalizing k with
  | nil => cases h
  | cons first rest ih =>
    cases k with
    | zero =>
      obtain rfl := Option.some.inj h
      rw [startOf, List.take_zero, List.flatten_nil, List.length_nil, Nat.zero_add, List.flatten_cons,
        List.getElem?_append_left hi]
    | succ k =>
      have hstart : startOf (first :: rest) (k + 1) = first.length + startOf rest k := by
        simp [startOf]
      rw [hstart, List.flatten_cons, List.getElem?_append_right (by omega), ← ih h]
      congr 1
      omega

/-- A branch that is taken leads to where its operand says; one that is not leads on. -/
theorem branch_leads {t : Nat} {taken : Bool} {op : Opcode} {x : Operand} {s s' : State} (hop : IsJump op)
    (hx : x = .int (t : Nat)) (hs : s'.ip = s.ip) (hne : op ≠ .term) :
    Exec.branch t taken = .next ∧ s'.ip = s.ip ∧ op ≠ .term ∨
      ∃ t', Exec.branch t taken = .jump t' ∧ (IsJump op ∨ op = .callInternal) ∧ x = .int (t' : Nat) := by
  cases taken with
  | true => exact .inr ⟨t, rfl, .inl hop, hx⟩
  | false => exact .inl ⟨rfl, hs, hne⟩

/-- Where an operation leads. -/
theorem step_leads {limits : Limits} {environment : Environment} {op : Opcode} {x : Operand}
    {s s' : State} {flow : Flow} (h : Exec.step limits environment op x s = .ok flow s') :
    flow = .halt ∨ Returns op ∨ flow = .next ∧ s'.ip = s.ip ∧ op ≠ .term ∨
      ∃ t, flow = .jump t ∧ (IsJump op ∨ op = .callInternal) ∧ x = .int (t : Nat) := by
  cases op
  case term =>
    cases h
    exact .inl rfl
  case ret => exact .inr (.inl (.inl rfl))
  case retWith w => exact .inr (.inl (.inr ⟨w, rfl⟩))
  case jump =>
    obtain ⟨t, s₁, ht, h⟩ := ok_of_bind h
    cases h
    exact .inr (.inr (.inr ⟨t, rfl, .inl (.inl rfl), countOperand_ok ht⟩))
  case branchFalse | branchTrue =>
    obtain ⟨t, s₁, ht, h⟩ := ok_of_bind h
    obtain ⟨v, s₂, hv, h⟩ := ok_of_bind h
    cases h
    have hs := (Stays.pop hv).1.trans (Stays.countOperand _ _ ht).1
    exact .inr (.inr (branch_leads (by simp [IsJump]) (countOperand_ok ht) hs nofun))
  case branchInt r =>
    obtain ⟨t, s₁, ht, h⟩ := ok_of_bind h
    obtain ⟨b, s₂, hb, h⟩ := ok_of_bind h
    obtain ⟨a, s₃, ha, h⟩ := ok_of_bind h
    cases h
    have hs := (Stays.popInt _ ha).1.trans ((Stays.popInt _ hb).1.trans (Stays.countOperand _ _ ht).1)
    exact .inr (.inr (branch_leads (by simp [IsJump]) (countOperand_ok ht) hs nofun))
  case callInternal =>
    obtain ⟨t, s₁, ht, h⟩ := ok_of_bind h
    obtain ⟨u, s₂, -, h⟩ := ok_of_bind h
    obtain ⟨_, s₃, -, h⟩ := ok_of_bind h
    obtain ⟨_, s₄, -, h⟩ := ok_of_bind h
    obtain ⟨_, s₅, -, h⟩ := ok_of_bind h
    obtain ⟨_, s₆, -, h⟩ := ok_of_bind h
    obtain ⟨_, s₇, -, h⟩ := ok_of_bind h
    cases h
    exact .inr (.inr (.inr ⟨t, rfl, .inr rfl, countOperand_ok ht⟩))
  -- every other instruction goes on behind itself
  all_goals
    obtain ⟨_, s₁, hp, h⟩ := ok_of_bind h
    cases h
    exact .inr (.inr (.inl ⟨rfl, (Stays.perform _ _ _ _ hp).1, nofun⟩))

/-- What a program's execution does at the borders of its streams: an instruction of a stream leads to
one of the same stream, but that a call leads to the start of a function's stream, and a return to
where its function was called. -/
def KeepsToStreams (functions : Nat) (p : Program) (streams : List (List Instruction)) : Prop :=
  ∀ (limits : Limits) (environment : Environment) (executed : Nat) (s s' : State) (k : Nat),
    Within streams k s.ip → advance limits environment p executed s = .running s' →
      Within streams k s'.ip ∨
      (∃ x, p.code[s.ip]? = some ⟨.known .callInternal, x⟩ ∧
        ∃ f < functions, s'.ip = startOf streams (f + 1)) ∨
      ∃ op x, p.code[s.ip]? = some ⟨.known op, x⟩ ∧ Returns op

/-- Nothing runs from the end of a stream into the next one. -/
theorem Integral.keepsToStreams (h : Integral functions p streams) : KeepsToStreams functions p streams := by
  rintro limits environment executed s s' k ⟨code, hk, i, hi, hip⟩ hadvance
  have hcode : p.code[s.ip]? = code[i]? := by
    rw [← Array.getElem?_toList, h.laidOut, hip, getElem?_flatten_startOf hk hi]
  obtain ⟨⟨operation, x⟩, hat⟩ : ∃ instruction, code[i]? = some instruction :=
    ⟨_, List.getElem?_eq_getElem hi⟩
  rw [hat] at hcode
  unfold advance at hadvance
  rw [hcode] at hadvance
  cases operation with
  | unassigned n => cases hadvance
  | known op =>
    dsimp only at hadvance
    split at hadvance
    · cases hadvance
    cases hstep : Exec.step limits environment op x s with
    | error f s₁ =>
      rw [hstep] at hadvance
      exact absurd hadvance Progress.stopped_ne_running
    | ok flow s₁ =>
      rw [hstep] at hadvance
      have hmem : (⟨.known op, x⟩ : Instruction) ∈ code := List.mem_of_getElem? hat
      have hchecked : ∀ {u : State}, proceed.checked limits u = .running s' → s' = u := fun {u} hu => by
        unfold proceed.checked at hu
        split at hu
        · cases hu
        · exact (Progress.running.inj hu).symm
      rcases step_leads hstep with rfl | hr | ⟨rfl, hs₁, hterm⟩ | ⟨t, rfl, hop, rfl⟩
      · cases hadvance
      · exact .inr (.inr ⟨op, x, hcode, hr⟩)
      · obtain rfl := hchecked hadvance
        by_cases hlast : i + 1 < code.length
        · exact .inl ⟨code, hk, i + 1, hlast, by simp only [hs₁, hip, Nat.add_assoc]⟩
        -- the last instruction ends the run or leaves the function
        have hend : code.getLast? = some ⟨.known op, x⟩ := by
          rw [List.getLast?_eq_getElem?, ← hat]
          congr 1
          omega
        cases k with
        | zero =>
          rw [h.main code hk] at hend
          obtain ⟨hop, -⟩ := Instruction.mk.inj (Option.some.inj hend)
          exact absurd (Operation.known.inj hop).symm hterm
        | succ k =>
          rw [h.bodies k code hk] at hend
          obtain ⟨hop, -⟩ := Instruction.mk.inj (Option.some.inj hend)
          exact .inr (.inr ⟨op, x, hcode, .inl (Operation.known.inj hop).symm⟩)
      · obtain rfl := hchecked hadvance
        rcases hop with hj | rfl
        · obtain ⟨a, ha, hin⟩ := h.branches k code op _ hk hmem hj
          obtain rfl : t = a := Int.ofNat.inj (Operand.int.inj ha)
          exact .inl hin
        · obtain ⟨f, hf, ha⟩ := h.names code (List.mem_of_getElem? hk) _ _ hmem (.inr rfl)
          obtain rfl : t = _ := Int.ofNat.inj (Operand.int.inj ha)
          exact .inr (.inl ⟨_, hcode, f, hf, rfl⟩)

end Run

/-! ### All programs -/

/-- For every tree, writing a program never fails because a label stands for no instruction.  If the
program can be compiled, it consists of a main stream and one stream for each function of the tree;
labels are resolved, branches stay in their stream, calls and references lead to the start of a
function, and a run goes from one stream to another by a call or a return only. -/
theorem compile_integral (environment : Environment) (body : List Stmt) :
    (∀ l, compile environment body ≠ .error (.unresolvedLabel l)) ∧
      ∀ p, compile environment body = .ok p → ∃ streams,
        Integral (bodiesAll body).length p streams ∧
          KeepsToStreams (bodiesAll body).length p streams := by
  unfold compile compileWith
  cases hrun : (Write.program ⟨environment, true⟩ body).run .empty with
  | error e =>
    refine ⟨fun l h => ?_, nofun⟩
    exact LabelFree.program ⟨environment, true⟩ body .empty l
      (hrun.trans (congrArg _ (Except.error.inj h)))
  | ok out =>
    obtain ⟨⟨⟩, w⟩ := out
    have hcomplete := program_complete hrun
    have hfinish : (w.finish : Except CompileError Program) = _ := hcomplete.finish
    refine ⟨fun l h => ?_, fun p h => ?_⟩
    · cases hfinish.symm.trans h
    · obtain rfl := Except.ok.inj (hfinish.symm.trans h)
      exact ⟨w.streams, hcomplete.integral, hcomplete.integral.keepsToStreams⟩

end StackScript.Assembly
