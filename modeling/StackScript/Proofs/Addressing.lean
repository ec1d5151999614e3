import StackScript.Proofs.Accesses
import StackScript.Proofs.Calls
import StackScript.Proofs.Streams

/-!
# Addressing of variables

Which cell of the stack an instruction accesses while a program runs.

* `callsAfter`: the calls of a run that have not returned, each with its frame.
* `Separated`: the variables of these calls lie in cells of their own, apart from the addresses that
  calls save and below the values that instructions push.
* `Addressed`: an instruction that accesses a variable does so in the frame of its function or in that
  of the top level, wherever the variable's declaration stands; all others leave variables alone.
* `variables_addressed`: this holds in every run of a program that compiles.
-/

namespace StackScript.Assembly

open Bytecode Host Syntax

/-! ### The code of functions in streams -/

section Streams

variable {streams : List (List Instruction)} {k i : Nat} {code : List Instruction}

theorem flatten_eq (h : streams[k]? = some code) :
    streams.flatten = (streams.take k).flatten ++ (code ++ (streams.drop (k + 1)).flatten) := by
  obtain ⟨hk, rfl⟩ := List.getElem?_eq_some_iff.1 h
  conv_lhs => rw [← List.take_append_drop k streams, List.drop_eq_getElem_cons hk]
  rw [List.flatten_append, List.flatten_cons]

/-- A stream ends before a later one starts. -/
theorem startOf_add_le {k' : Nat} (h : streams[k]? = some code) (hlt : k < k') :
    startOf streams k + code.length ≤ startOf streams k' := by
  have hsucc : startOf streams (k + 1) = startOf streams k + code.length := by
    rw [startOf, startOf, List.take_add_one, h, List.flatten_append, List.length_append]
    simp
  obtain ⟨more, hmore⟩ : streams.take (k + 1) <+: streams.take k' := List.take_prefix_take_left hlt
  rw [← hsucc, startOf, startOf, ← hmore, List.flatten_append, List.length_append]
  exact Nat.le_add_right _ _

theorem take_start (h : streams[k]? = some code) :
    streams.flatten.take (startOf streams k) = (streams.take k).flatten := by
  rw [flatten_eq h]
  exact List.take_left' rfl

theorem take_stop (h : streams[k]? = some code) :
    streams.flatten.take (startOf streams k + code.length) = (streams.take k).flatten ++ code := by
  rw [flatten_eq h, ← List.append_assoc]
  exact List.take_left' List.length_append

end Streams

/-- The streams of a program, one for each of its functions: the instructions of each one that access
variables are those of the accesses in the function, in the same order. -/
structure Accessed (body : List Stmt) (program : Program) (streams : List (List Instruction)) :
    Prop where
  integral : Integral (bodiesAll body).length program streams
  inOrder : ∀ (k : Nat) f code, (programFunctions body)[k]? = some f → streams[k]? = some code →
    code.filterMap slotAt? = f.accesses.map (slotOfAccess f.level)
  lawful : ∀ f ∈ programFunctions body, ∀ a ∈ f.accesses, Lawful f.level a

/-- The instruction at an address was emitted for an access of a function: it accesses the variable's
cell, and as many accesses come before it as instructions that access variables. -/
def EmittedFor (body : List Stmt) (streams : List (List Instruction)) (address : Nat) (f : Function)
    (a : Occurrence) : Prop :=
  ∃ (k i : Nat) (code : List Instruction) (instruction : Instruction),
    (programFunctions body)[k]? = some f ∧ streams[k]? = some code ∧
    address = startOf streams k + i ∧ code[i]? = some instruction ∧
    slotAt? instruction = some (slotOfAccess f.level a) ∧
    f.accesses[((code.take i).filterMap slotAt?).length]? = some a

/-- An instruction that was emitted for an access is in the program. -/
theorem Accessed.emitted {body : List Stmt} {program : Program} {streams : List (List Instruction)}
    {f : Function} {a : Occurrence} {address : Nat} (h : Accessed body program streams)
    (hemitted : EmittedFor body streams address f a) :
    ∃ i, program.code[address]? = some i ∧ slotAt? i = some (slotOfAccess f.level a) := by
  obtain ⟨k, j, code, i, -, hk, rfl, hi, hslot, -⟩ := hemitted
  refine ⟨i, ?_, hslot⟩
  rw [← Array.getElem?_toList, h.integral.laidOut,
    getElem?_flatten_startOf hk (List.getElem?_eq_some_iff.1 hi).1]
  exact hi

theorem getElem?_of_filterMap {α β γ : Type} {g : α → Option γ} {h : β → γ} {code : List α}
    {xs : List β} (hmap : code.filterMap g = xs.map h) {i : Nat} {c : α} {s : γ}
    (hc : code[i]? = some c) (hs : g c = some s) :
    ∃ x, xs[((code.take i).filterMap g).length]? = some x ∧ h x = s := by
  obtain ⟨hi, rfl⟩ := List.getElem?_eq_some_iff.1 hc
  have hcode : code.filterMap g = (code.take i).filterMap g ++ s :: (code.drop (i + 1)).filterMap g := by
    conv_lhs => rw [← List.take_append_drop i code, List.drop_eq_getElem_cons hi]
    rw [List.filterMap_append, List.filterMap_cons, hs]
  have hget : (xs.map h)[((code.take i).filterMap g).length]? = some s := by
    rw [← hmap, hcode, List.getElem?_append_right (Nat.le_refl _), Nat.sub_self]
    rfl
  rw [List.getElem?_map] at hget
  exact Option.map_eq_some_iff.1 hget

/-- A layout of a program whose functions are its streams. -/
structure Laid (L : Layout) (body : List Stmt) (streams : List (List Instruction)) : Prop where
  code : ProgramCode L body
  accessed : Accessed body L.program streams
  places : ∀ k code, streams[k]? = some code →
    L.start k = startOf streams k ∧ L.stop k = startOf streams k + code.length

/-- All functions of a program have a stream, which is not empty. -/
theorem Laid.stream {L : Layout} {body : List Stmt} {streams : List (List Instruction)}
    {f : Function} {k : Nat} (h : Laid L body streams) (hf : (programFunctions body)[k]? = some f) :
    ∃ code, streams[k]? = some code ∧ 0 < code.length := by
  have hk := (List.getElem?_eq_some_iff.1 hf).1
  have hlength : (programFunctions body).length = streams.length := by
    rw [h.accessed.integral.count, programFunctions, List.length_cons, functionsAll_length]
  have hcode := List.getElem?_eq_getElem (hlength ▸ hk)
  refine ⟨_, hcode, List.length_pos_iff.2 fun hnil => ?_⟩
  obtain ⟨n, hroom⟩ := h.accessed.integral.rooms _ (List.mem_of_getElem? hcode)
  rw [hnil] at hroom
  cases hroom

/-- A program that compiles consists of the streams of its functions. -/
theorem laid_of_compile {environment : Environment} {body : List Stmt} {program : Program}
    (hlisted : allListed body = true) (hcompile : compile environment body = .ok program) :
    ∃ L streams, L.program = program ∧ Laid L body streams := by
  obtain ⟨w, hw, hfinish, hcode⟩ := written_of_compile (steadyProgram_of_listed hlisted) hcompile
  have hcomplete := program_complete hw
  obtain rfl := Except.ok.inj (hcomplete.finish.symm.trans hfinish)
  let L := (w.link (.ofCode w.streams.flatten.toArray) environment (aritiesOf body)).layout
  -- the finished program is the streams of the buffers, one behind the other
  have hplaces : ∀ k code, w.streams[k]? = some code →
      L.start k = startOf w.streams k ∧ L.stop k = startOf w.streams k + code.length := by
    intro k code hk
    have hlt : k < w.buffers.size := by
      rw [← w.streams_length]
      exact (List.getElem?_eq_some_iff.1 hk).1
    have hstart : L.start k = startOf w.streams k := Writer.base_eq_startOf hlt
    refine ⟨hstart, ?_⟩
    rw [← hstart, Writer.streams_length_at hk]
    rfl
  refine ⟨L, w.streams, rfl, hcode, ⟨hcomplete.integral, fun k f code hf hk => ?_, fun f hf => ?_⟩,
    hplaces⟩
  · obtain ⟨slots, -, -, hslots, -⟩ := hcode.accessing hf
    obtain ⟨hstart, hstop⟩ := hplaces k code hk
    have hprogram : L.program.code.toList = w.streams.flatten := hcomplete.integral.laidOut
    change slotsBefore L.program (L.stop k) = slotsBefore L.program (L.start k) ++ _ at hslots
    rw [hstart, hstop, slotsBefore, slotsBefore, hprogram, take_start hk, take_stop hk,
      List.filterMap_append] at hslots
    exact List.append_cancel_left hslots
  · obtain ⟨k, hk⟩ := List.getElem?_of_mem hf
    obtain ⟨slots, -, -, -, hlawful⟩ := hcode.accessing hk
    exact hlawful

end StackScript.Assembly

namespace StackScript.Machine

open Bytecode Host Assembly Syntax

/-! ### The calls of a run -/

/-- A call that has not returned: the index of the first instruction of its function, and the frame
pointer. -/
structure Call where
  entry : Nat
  base : Nat
deriving DecidableEq

/-- The cell of a variable in the frame of a call. -/
def Call.cell (B : Call) (v : Variable) : Int := B.base + v.place

/-- The calls behind an instruction: one that calls a function adds a call, whose frame lies above the
two cells that it saves, and one that returns takes the latest call away. -/
def callsBehind (program : Program) (s : State) (calls : List Call) : List Call :=
  match (program.code[s.ip]? : Option Instruction) with
  | some ⟨.known .callInternal, .int target⟩ => ⟨target.toNat, s.stack.size + 2⟩ :: calls
  | some ⟨.known .ret, _⟩ | some ⟨.known (.retWith _), _⟩ => calls.tail
  | _ => calls

/-- The calls of a run that have not returned after so many instructions, the latest one first.  The
last one is that of the top level, which is there from the start on. -/
def callsAfter (limits : Limits) (host : Environment) (program : Program) (start : State) :
    Nat → List Call
  | 0 => [⟨0, 0⟩]
  | n + 1 =>
    match stateAfter limits host program start n with
    | some s => callsBehind program s (callsAfter limits host program start n)
    | none => callsAfter limits host program start n

/-- The call is one of a function of the program. -/
def IsCallOf (body : List Stmt) (streams : List (List Instruction)) (B : Call) (f : Function) : Prop :=
  ∃ k, (programFunctions body)[k]? = some f ∧ B.entry = startOf streams k

/-- Where the variables of the calls lie in a state. -/
structure Separated (body : List Stmt) (streams : List (List Instruction)) (s : State)
    (calls : List Call) : Prop where
  /-- All calls are of functions of the program, and the running one has the frame in use. -/
  functions : ∀ B ∈ calls, ∃ f, IsCallOf body streams B f
  running : ∃ B rest, calls = B :: rest ∧ B.base = s.fp
  outermost : calls.getLast? = some ⟨0, 0⟩
  /-- A call's frame lies above those of its callers. -/
  above : calls.Pairwise fun B C => C.base < B.base
  /-- A variable is on the stack, unless its call is still to make room for it. -/
  onStack : ∀ B f v, B ∈ calls → IsCallOf body streams B f → v ∈ f.vars →
    (B.base = s.fp → s.ip = B.entry → v.place < 0) → 0 ≤ B.cell v ∧ B.cell v < s.stack.size
  /-- Different variables of a call lie in different cells, and so do those of different calls. -/
  apart : ∀ B C f g v w, B ∈ calls → C ∈ calls → IsCallOf body streams B f →
    IsCallOf body streams C g → v ∈ f.vars → w ∈ g.vars → B.cell v = C.cell w → B = C ∧ v = w
  /-- A call saves the caller's frame pointer and the address to return to below its frame. -/
  saved : ∀ (i : Nat) B C, calls[i]? = some B → calls[i + 1]? = some C →
    Saved s.stack (B.base - 2) C.base ∧ ∃ address, Saved s.stack (B.base - 1) address
  /-- No variable lies where a call saves them. -/
  unsaved : ∀ B C f v, B ∈ calls → C ∈ calls → IsCallOf body streams B f → v ∈ f.vars →
    C.base ≠ 0 → B.cell v ≠ (C.base : Int) - 2 ∧ B.cell v ≠ (C.base : Int) - 1

/-- The call whose frame holds a variable that a function accesses: the running call, or that of the
top level. -/
inductive Holds (calls : List Call) (f : Function) (v : Variable) : Call → Prop
  | own {B rest} (running : calls = B :: rest) (level : v.level = f.level) : Holds calls f v B
  | top (other : v.level ≠ f.level) (level : v.level = 0) : Holds calls f v ⟨0, 0⟩

/-- The next instruction was emitted for an access of the running function `f`; the accessed variable
is one of those that the function of the call `C` declares. -/
structure Accesses (body : List Stmt) (streams : List (List Instruction)) (s : State)
    (calls : List Call) (f : Function) (a : Occurrence) (C : Call) : Prop where
  running : ∃ B rest, calls = B :: rest ∧ IsCallOf body streams B f
  emitted : EmittedFor body streams s.ip f a
  holds : Holds calls f a.target C
  declared : ∃ g, IsCallOf body streams C g ∧ a.target ∈ g.vars

/-- The instruction does to a cell what its operation says. -/
inductive Performs (s s' : State) (cell : Int) : Opcode → Prop
  | load {a w v} (nonneg : 0 ≤ cell) (found : s.stack[cell.toNat]? = some v)
      (pushed : s'.stack = s.stack.push v) : Performs s s' cell (.load a w)
  | store {a w v} (nonneg : 0 ≤ cell) (popped : s.stack.back? = some v)
      (stored : s'.stack = s.stack.pop.setIfInBounds cell.toNat v) : Performs s s' cell (.store a w)
  | update {a u v v'} (nonneg : 0 ≤ cell) (found : s.stack[cell.toNat]? = some v)
      (changed : bump u v = .ok v')
      (stored : s'.stack = s.stack.setIfInBounds cell.toNat v') : Performs s s' cell (.update a u)

/-- What an instruction does to the variables of the calls. -/
structure Addressed (body : List Stmt) (program : Program) (streams : List (List Instruction))
    (calls calls' : List Call) (s s' : State) : Prop where
  /-- An instruction that accesses a variable does so in the frame of the call that holds it. -/
  access : ∀ op x, program.code[s.ip]? = some ⟨.known op, x⟩ → accessesSlot op = true →
    ∃ f a C, Accesses body streams s calls f a C ∧
      slotOf? op x = some (slotOfAccess f.level a) ∧ Performs s s' (C.cell a.target) op
  /-- A call takes as many values for its parameters as are dropped behind it. -/
  called : ∀ B f, calls' = B :: calls → IsCallOf body streams B f → B.base = s.stack.size + 2 ∧
    f.params.length ≤ s.stack.size ∧ (f.params.length ≠ 0 → argumentsAt program s.ip = f.params.length)
  /-- A variable of a call that goes on keeps its value, but where an access changes it. -/
  kept : ∀ B f v, B ∈ calls → B ∈ calls' → IsCallOf body streams B f → v ∈ f.vars →
    B.cell v < s.stack.size → s'.stack[(B.cell v).toNat]? = s.stack[(B.cell v).toNat]? ∨
      ∃ g a, Accesses body streams s calls g a B ∧ a.target = v ∧ a.use ≠ .read

/-! ### Activations of functions -/

def Activation.call (A : Activation) : Call := ⟨A.first, A.base⟩

/-- An activation of the function with the given number. -/
structure Activation.Executes (L : Layout) (body : List Stmt) (A : Activation) (k : Nat)
    (f : Function) : Prop where
  found : (programFunctions body)[k]? = some f
  params : A.room.params = f.params.length
  declared : (declarationsAll f.body).length ≤ A.room.slots
  first : A.first = L.start k
  stop : A.stop = L.stop k

section Activations

variable {L : Layout} {strict : Prop} {body : List Stmt} {A B : Activation} {rest : List Activation}
  {stack : Array Value} {f : Function} {v : Variable} {k : Nat}

theorem slots_inj {L : Layout} {a m n : Nat} (h : L.Has a ⟨.allocStack, .int m⟩)
    (h' : L.Has a ⟨.allocStack, .int n⟩) : m = n :=
  Int.ofNat.inj (Operand.int.inj (Draft.mk.inj (OkAt.has_inj h h')).2)

theorem topCall_executes (hcode : ProgramCode L body) :
    (topCall L).Executes L body 0 (mainFunction body) := by
  obtain ⟨slots, room, hdeclared, -⟩ := hcode.accessing (i := 0) (f := mainFunction body) rfl
  rw [hcode.start] at room
  obtain rfl : L.top = slots := slots_inj hcode.room room
  exact ⟨rfl, rfl, hdeclared, hcode.start.symm, rfl⟩

theorem executes_of_isOf (hcode : ProgramCode L body) (hk : k ≠ 0 ∧ k < L.count) (h : A.IsOf L k) :
    ∃ f, A.Executes L body k f := by
  have hf := List.getElem?_eq_getElem (hcode.count ▸ hk.2)
  obtain ⟨slots, room, hdeclared, -⟩ := hcode.accessing hf
  have hparams := (hcode.functions k _ hk.1 hf).1
  have hroom := h.room
  rw [h.first] at hroom
  exact ⟨_, hf, h.params.trans hparams, slots_inj hroom room ▸ hdeclared, h.first, h.stop⟩

/-- The frames of calls lie behind each other. -/
theorem Chained.pairwise (h : Chained L strict stack (A :: rest)) : (A :: rest).Pairwise fun A B =>
    B.base + B.room.slots + A.room.params + 2 ≤ A.base := by
  generalize hacts : A :: rest = acts at h
  induction h generalizing A rest with
  | top => exact List.pairwise_singleton _ _
  | @call A B others ret k caller above frame address fits ih =>
    have hB := ih rfl
    refine .cons (fun C hC => ?_) hB
    rcases List.mem_cons.1 hC with rfl | hC
    · omega
    · have := List.rel_of_pairwise_cons hB hC
      omega

/-- A call saves the caller's frame pointer and the address to return to. -/
theorem Chained.saves {acts : List Activation} (h : Chained L strict stack acts) {i : Nat}
    (hi : acts[i]? = some A) (hnext : acts[i + 1]? = some B) :
    Saved stack (A.base - 2) B.base ∧ ∃ address, Saved stack (A.base - 1) address := by
  induction h generalizing i with
  | top => cases hnext
  | call _ _ frame address _ ih =>
    cases i with
    | zero =>
      obtain rfl := Option.some.inj hi
      obtain rfl := Option.some.inj hnext
      exact ⟨frame, _, address⟩
    | succ i => exact ih hi hnext

/-- A call has a caller whose part of the stack lies below its arguments, or is that of the top level. -/
theorem Chained.base_of_mem {acts : List Activation} (h : Chained L strict stack acts) (hA : A ∈ acts) :
    (A.base = 0 ∧ A.room.params = 0) ∨ A.room.params + 2 ≤ A.base := by
  induction h with
  | top room base =>
    obtain rfl := List.mem_singleton.1 hA
    exact .inl ⟨base, by rw [room]⟩
  | call _ above _ _ _ ih =>
    rcases List.mem_cons.1 hA with rfl | hA
    · exact .inr (by omega)
    · exact ih hA

/-- Where the variables of a call lie. -/
theorem Activation.Executes.cell (h : A.Executes L body k f) (hv : v ∈ f.vars) :
    ((A.base : Int) ≤ A.call.cell v ∧ A.call.cell v < A.base + A.room.slots) ∨
      ((A.base : Int) - 2 - A.room.params ≤ A.call.cell v ∧ A.call.cell v < A.base - 2) := by
  have hplace := (Function.place_of_mem hv).2
  have hparams := h.params
  have hdeclared := h.declared
  unfold Activation.call Call.cell
  dsimp only
  omega

end Activations

/-! ### The calls of a run and their activations -/

/-- A state in which the calls run that activations stand for. -/
structure Tracked (L : Layout) (strict : Prop) (body : List Stmt) (s : State) (calls : List Call)
    (A : Activation) (rest : List Activation) : Prop where
  run : Running L strict s A rest
  same : calls = (A :: rest).map Activation.call
  executes : ∀ B ∈ A :: rest, ∃ k f, B.Executes L body k f
  outermost : calls.getLast? = some ⟨0, 0⟩

section Tracked

variable {L : Layout} {strict : Prop} {body : List Stmt} {limits : Limits} {host : Environment}
  {s s' start : State} {calls : List Call} {A B : Activation} {rest others : List Activation}

theorem callsBehind_plain {op : Opcode} {x : Operand} (has : L.Has s.ip ⟨op, x⟩)
    (plain : changesFrame op = false) : callsBehind L.program s calls = calls := by
  have hcode : L.program.code[s.ip]? = some ⟨.known op, x⟩ := has
  rw [callsBehind, hcode]
  cases op <;> first | rfl | cases plain

theorem callsBehind_return {v : Value} (value : BringsBack L s v) :
    callsBehind L.program s calls = calls.tail := by
  rcases value with ⟨has, -⟩ | ⟨w, has, -⟩
  · have hcode : L.program.code[s.ip]? = some ⟨.known .ret, .none⟩ := has
    rw [callsBehind, hcode]
  · have hcode : L.program.code[s.ip]? = some ⟨.known (.retWith w), .none⟩ := has
    rw [callsBehind, hcode]

/-- An instruction leads from activations to those of the calls behind it. -/
theorem Tracked.next (hcode : ProgramCode L body) (h : Tracked L strict body s calls A rest)
    (hmoves : Moves L s s' A rest B others) (hrun : Running L strict s' B others) :
    Tracked L strict body s' (callsBehind L.program s calls) B others := by
  cases hmoves with
  | stay has plain =>
    rw [callsBehind_plain has plain]
    exact ⟨hrun, h.same, h.executes, h.outermost⟩
  | call has number code _ _ base =>
    have hprogram : L.program.code[s.ip]? = some ⟨.known .callInternal, .int (B.first : Nat)⟩ := has
    have hcalls : callsBehind L.program s calls = B.call :: calls := by
      rw [callsBehind, hprogram, Activation.call, base]
      rfl
    rw [hcalls]
    refine ⟨hrun, by rw [h.same]; rfl, fun C hC => ?_, ?_⟩
    · rcases List.mem_cons.1 hC with rfl | hC
      · obtain ⟨f, hf⟩ := executes_of_isOf hcode number code
        exact ⟨_, f, hf⟩
      · exact h.executes C hC
    · rw [List.getLast?_cons, h.outermost]
      rfl
  | back caller value =>
    subst caller
    rw [callsBehind_return value]
    refine ⟨hrun, by rw [h.same]; rfl, fun C hC => h.executes C (List.mem_cons_of_mem _ hC), ?_⟩
    have hlast := h.outermost
    rw [h.same] at hlast ⊢
    exact hlast

/-- Code that has the shape of its tree can be called, and fits where a run starts. -/
theorem starts_of_code (hcode : ProgramCode L body) (start : State) :
    Callable L False ∧ Running L False start.restart (topCall L) [] := by
  have hdemands : Demands False fun _ => true := ⟨fun _ _ _ => rfl, nofun⟩
  have hevery := everyAll_of_all (fun _ : Expr => rfl) body
  exact ⟨callable_of_code hcode hdemands hevery, running_of_code hcode hdemands hevery start⟩

/-- In every state of a run, the calls that have not returned are those of activations. -/
theorem tracked_after (hcode : ProgramCode L body) {n : Nat}
    (h : stateAfter limits host L.program start.restart n = some s) :
    ∃ A rest, Tracked L False body s (callsAfter limits host L.program start.restart n) A rest := by
  obtain ⟨hcallable, hstart⟩ := starts_of_code hcode start
  induction n generalizing s with
  | zero =>
    obtain rfl := Option.some.inj h
    refine ⟨topCall L, [], hstart, rfl, fun B hB => ?_, rfl⟩
    obtain rfl := List.mem_singleton.1 hB
    exact ⟨_, _, topCall_executes hcode⟩
  | succ n ih =>
    obtain ⟨u, hu, hnext⟩ := stateAfter_succ h
    obtain ⟨A, rest, htracked⟩ := ih hu
    have hmeets := htracked.run.advances hcallable limits host n
    rw [hnext] at hmeets
    obtain ⟨B, others, hmoves, hrun⟩ := hmeets
    rw [callsAfter, hu]
    exact ⟨B, others, htracked.next hcode hmoves hrun⟩

end Tracked

/-! ### Frames -/

section Frames

variable {L : Layout} {strict : Prop} {body : List Stmt} {streams : List (List Instruction)}
  {s s' : State} {calls : List Call} {A A' : Activation} {rest : List Activation} {B C : Call}
  {f g : Function} {v : Variable} {k : Nat}

theorem Activation.Executes.isCallOf (hA : A.Executes L body k f) (h : Laid L body streams) :
    IsCallOf body streams A.call f := by
  obtain ⟨code, hk, -⟩ := h.stream hA.found
  exact ⟨k, hA.found, hA.first.trans (h.places k code hk).1⟩

/-- A call is one of a single function. -/
theorem isCallOf_inj (h : Laid L body streams) (hf : IsCallOf body streams B f)
    (hg : IsCallOf body streams B g) : f = g := by
  obtain ⟨k, hk, hentry⟩ := hf
  obtain ⟨k', hk', hentry'⟩ := hg
  obtain ⟨code, hcode, hpos⟩ := h.stream hk
  obtain ⟨code', hcode', hpos'⟩ := h.stream hk'
  rcases Nat.lt_trichotomy k k' with hlt | rfl | hlt
  · have := startOf_add_le hcode hlt
    omega
  · exact Option.some.inj (hk.symm.trans hk')
  · have := startOf_add_le hcode' hlt
    omega

/-- A call that has not returned is that of an activation. -/
theorem Tracked.executing (ht : Tracked L strict body s calls A rest) (h : Laid L body streams)
    (hB : B ∈ calls) (hf : IsCallOf body streams B f) :
    ∃ A' ∈ A :: rest, A'.call = B ∧ ∃ k, A'.Executes L body k f := by
  rw [ht.same] at hB
  obtain ⟨A', hA', rfl⟩ := List.mem_map.1 hB
  obtain ⟨k, g, hg⟩ := ht.executes A' hA'
  obtain rfl := isCallOf_inj h (hg.isCallOf h) hf
  exact ⟨A', hA', rfl, k, hg⟩

theorem pairwise_cases {α : Type} {R : α → α → Prop} {l : List α} (h : l.Pairwise R) {a b : α}
    (ha : a ∈ l) (hb : b ∈ l) : a = b ∨ R a b ∨ R b a := by
  induction h with
  | nil => cases ha
  | cons hx _ ih =>
    rcases List.mem_cons.1 ha with rfl | ha'
    · exact (List.mem_cons.1 hb).elim (fun h => .inl h.symm) fun hb => .inr (.inl (hx b hb))
    · rcases List.mem_cons.1 hb with rfl | hb'
      · exact .inr (.inr (hx a ha'))
      · exact ih ha' hb'

/-- A variable of a call that has not returned lies below the values of the running call. -/
theorem Tracked.cell_bounds (ht : Tracked L strict body s calls A rest) (h : Laid L body streams)
    (hB : B ∈ calls) (hf : IsCallOf body streams B f) (hv : v ∈ f.vars) :
    0 ≤ B.cell v ∧ B.cell v < A.base + A.room.slots := by
  obtain ⟨A', hA', rfl, k, hexecutes⟩ := ht.executing h hB hf
  have hcell := hexecutes.cell hv
  have hbase := ht.run.chained.base_of_mem hA'
  refine ⟨by omega, ?_⟩
  rcases List.mem_cons.1 hA' with rfl | hA'
  · omega
  · have := List.rel_of_pairwise_cons ht.run.chained.pairwise hA'
    omega

/-- The variables of the calls lie in cells of their own. -/
theorem Tracked.apart (ht : Tracked L strict body s calls A rest) (h : Laid L body streams)
    {w : Variable} (hB : B ∈ calls) (hC : C ∈ calls) (hf : IsCallOf body streams B f)
    (hg : IsCallOf body streams C g) (hv : v ∈ f.vars) (hw : w ∈ g.vars)
    (hcell : B.cell v = C.cell w) : B = C ∧ v = w := by
  obtain ⟨A₁, hA₁, rfl, _, hexecutes₁⟩ := ht.executing h hB hf
  obtain ⟨A₂, hA₂, rfl, _, hexecutes₂⟩ := ht.executing h hC hg
  have hcell₁ := hexecutes₁.cell hv
  have hcell₂ := hexecutes₂.cell hw
  rcases pairwise_cases ht.run.chained.pairwise hA₁ hA₂ with rfl | hle | hle
  · obtain rfl := isCallOf_inj h hf hg
    refine ⟨rfl, Function.eq_of_place hv hw ?_⟩
    unfold Call.cell at hcell
    omega
  · omega
  · omega

/-- The frames of the calls of a run. -/
theorem Tracked.separated (ht : Tracked L strict body s calls A rest) (h : Laid L body streams) :
    Separated body streams s calls where
  functions B hB := by
    rw [ht.same] at hB
    obtain ⟨A', hA', rfl⟩ := List.mem_map.1 hB
    obtain ⟨k, f, hf⟩ := ht.executes A' hA'
    exact ⟨f, hf.isCallOf h⟩
  running := ⟨_, _, ht.same, ht.run.frame.symm⟩
  outermost := ht.outermost
  above := by
    rw [ht.same, List.pairwise_map]
    refine ht.run.chained.pairwise.imp fun hle => ?_
    unfold Activation.call
    dsimp only
    omega
  onStack B f v hB hf hv hroom := by
    refine ⟨(ht.cell_bounds h hB hf hv).1, ?_⟩
    obtain ⟨A', hA', rfl, k, hexecutes⟩ := ht.executing h hB hf
    have hcell := hexecutes.cell hv
    obtain ⟨size, hsize, hstands⟩ := ht.run.stands
    rcases List.mem_cons.1 hA' with rfl | hA'
    · generalize hip : s.ip = a at hstands
      -- the running activation has all of its cells, unless it is just being entered
      cases hstands with
      | entering =>
        have hplace := hroom ht.run.frame.symm hip
        unfold Activation.call Call.cell at hcell ⊢
        dsimp only at hcell ⊢
        omega
      | inside => omega
    · have := List.rel_of_pairwise_cons ht.run.chained.pairwise hA'
      omega
  apart B C f g v w hB hC hf hg hv hw hcell := ht.apart h hB hC hf hg hv hw hcell
  saved i B C hB hC := by
    rw [ht.same, List.getElem?_map] at hB hC
    obtain ⟨A₁, hA₁, rfl⟩ := Option.map_eq_some_iff.1 hB
    obtain ⟨A₂, hA₂, rfl⟩ := Option.map_eq_some_iff.1 hC
    exact ht.run.chained.saves hA₁ hA₂
  unsaved B C f v hB hC hf hv hbase := by
    obtain ⟨g, hg⟩ : ∃ g, IsCallOf body streams C g := by
      rw [ht.same] at hC
      obtain ⟨A', hA', rfl⟩ := List.mem_map.1 hC
      obtain ⟨k, g, hg⟩ := ht.executes A' hA'
      exact ⟨g, hg.isCallOf h⟩
    obtain ⟨A₁, hA₁, rfl, _, hexecutes₁⟩ := ht.executing h hB hf
    obtain ⟨A₂, hA₂, rfl, _, hexecutes₂⟩ := ht.executing h hC hg
    have hcell := hexecutes₁.cell hv
    have hne : A₂.base ≠ 0 := hbase
    show A₁.call.cell v ≠ (A₂.base : Int) - 2 ∧ A₁.call.cell v ≠ (A₂.base : Int) - 1
    -- a cell lies above the two saved ones of its own activation and of all that are below
    rcases pairwise_cases ht.run.chained.pairwise hA₁ hA₂ with rfl | hle | hle
    · omega
    · omega
    · omega

/-- An instruction that accesses a variable was emitted for an access of the running function. -/
theorem Tracked.emitted (ht : Tracked L strict body s calls A rest) (h : Laid L body streams)
    {op : Opcode} {x : Operand} {slot : Slot} (has : L.Has s.ip ⟨op, x⟩)
    (hslot : slotOf? op x = some slot) : ∃ k f a, A.Executes L body k f ∧ a ∈ f.accesses ∧
      EmittedFor body streams s.ip f a ∧ slotOfAccess f.level a = slot := by
  obtain ⟨k, f, hexecutes⟩ := ht.executes A List.mem_cons_self
  obtain ⟨code, hk, hpos⟩ := h.stream hexecutes.found
  obtain ⟨hstart, hstop⟩ := h.places k code hk
  -- The instruction stands in the code of the running function.
  obtain ⟨i, hi, hip⟩ : ∃ i < code.length, s.ip = startOf streams k + i := by
    have hfirst := hexecutes.first.trans hstart
    have hend := hexecutes.stop.trans hstop
    obtain ⟨size, -, hstands⟩ := ht.run.stands
    generalize s.ip = a at hstands
    cases hstands with
    | entering => exact ⟨0, hpos, hfirst⟩
    | inside fits =>
      have hbounds := Assembly.Fits.bounds fits
      exact ⟨a - startOf streams k, by omega, by omega⟩
  have hinstruction : code[i]? = some ⟨.known op, x⟩ := by
    rw [← getElem?_flatten_startOf hk hi, ← h.accessed.integral.laidOut, ← hip, Array.getElem?_toList]
    exact has
  obtain ⟨a, ha, hsame⟩ :=
    getElem?_of_filterMap (h.accessed.inOrder k f code hexecutes.found hk) hinstruction hslot
  refine ⟨k, f, a, hexecutes, List.mem_of_getElem? ha, ?_, hsame⟩
  exact ⟨k, i, code, _, hexecutes.found, hk, hip, hinstruction, hsame ▸ hslot, ha⟩

/-- Such an instruction accesses the variable where its declaration put it. -/
theorem Tracked.accesses (ht : Tracked L strict body s calls A rest) (h : Laid L body streams)
    {op : Opcode} {x : Operand} {touch : Touch} {area : Area} {i : Int} (has : L.Has s.ip ⟨op, x⟩)
    (hslot : slotOf? op x = some ⟨touch, area, i⟩) : ∃ f a C, Accesses body streams s calls f a C ∧
      slotOf? op x = some (slotOfAccess f.level a) ∧ C.cell a.target = areaBase s area + i ∧
      C ∈ calls ∧ (a.use = .read → touch = .load) := by
  obtain ⟨k, f, a, hexecutes, ha, hemitted, hsame⟩ := ht.emitted h has hslot
  have hf := List.mem_of_getElem? hexecutes.found
  obtain ⟨hown, htop⟩ := accesses_known hf ha
  obtain ⟨rfl, rfl, rfl⟩ := Slot.mk.inj hsame
  have hrunning : ∃ B rest, calls = B :: rest ∧ IsCallOf body streams B f :=
    ⟨_, _, ht.same, hexecutes.isCallOf h⟩
  by_cases hlevel : a.target.level = f.level
  · refine ⟨f, a, A.call, ⟨hrunning, hemitted, .own ht.same hlevel, f, hexecutes.isCallOf h, hown hlevel⟩,
      hslot, ?_, ?_, fun hread => by rw [hread]; rfl⟩
    · rw [if_pos hlevel]
      show (A.base : Int) + a.target.place = s.fp + a.target.place
      rw [ht.run.frame]
    · rw [ht.same]
      exact List.mem_cons_self
  · have hzero : a.target.level = 0 := ((h.accessed.lawful f hf a ha).reaches).resolve_left hlevel
    refine ⟨f, a, ⟨0, 0⟩, ⟨hrunning, hemitted, .top hlevel hzero, mainFunction body, ⟨0, rfl, rfl⟩,
      htop hzero⟩, hslot, ?_, List.mem_of_getLast? ht.outermost, fun hread => by rw [hread]; rfl⟩
    rw [if_neg hlevel]
    rfl

/-- An instruction leaves the variables alone, but for those that it was emitted for. -/
theorem Tracked.addressed (ht : Tracked L strict body s calls A rest) (h : Laid L body streams)
    {others : List Activation} (hmoves : Moves L s s' A rest A' others) :
    Addressed body L.program streams calls (callsBehind L.program s calls) s s' where
  access op x hcode hop := by
    have has : L.Has s.ip ⟨op, x⟩ := hcode
    cases hmoves with
    | stay has' _ _ _ touches =>
      cases OkAt.has_inj has has'
      cases touches with
      | load _ found cell stack =>
        -- the slot of the instruction is that of an access of the source, in the activation that declares the variable
        obtain ⟨f, a, C, haccesses, hslot, hcell, -, -⟩ := ht.accesses h has rfl
        rw [← found] at hcell
        refine ⟨f, a, C, haccesses, hslot, .load (by omega) ?_ stack⟩
        rw [hcell]
        exact cell
      | store _ found value _ stack =>
        obtain ⟨f, a, C, haccesses, hslot, hcell, -, -⟩ := ht.accesses h has rfl
        rw [← found] at hcell
        refine ⟨f, a, C, haccesses, hslot, .store (by omega) value ?_⟩
        rw [hcell]
        exact stack
      | update _ found cell value stack =>
        obtain ⟨f, a, C, haccesses, hslot, hcell, -, -⟩ := ht.accesses h has rfl
        rw [← found] at hcell
        refine ⟨f, a, C, haccesses, hslot, .update (by omega) ?_ value ?_⟩
        · rw [hcell]
          exact cell
        · rw [hcell]
          exact stack
      | other plain => rw [plain] at hop; cases hop
    | call has' => cases OkAt.has_inj has has'; cases hop
    | back _ value =>
      rcases value with ⟨has', -⟩ | ⟨w, has', -⟩
      · cases OkAt.has_inj has has'; cases hop
      · cases OkAt.has_inj has has'; cases hop
  called B f hcalls hf := by
    cases hmoves with
    | stay has plain =>
      rw [callsBehind_plain has plain] at hcalls
      exact absurd hcalls (List.ne_cons_self)
    | @call _ _ i has number code drop _ base arguments =>
      have hprogram : L.program.code[s.ip]? = some ⟨.known .callInternal, .int (A'.first : Nat)⟩ := has
      rw [callsBehind, hprogram] at hcalls
      obtain ⟨hcall, -⟩ := List.cons.inj hcalls
      have hB : A'.call = B := by rw [← hcall, Activation.call, base]; rfl
      obtain ⟨g, hexecutes⟩ := executes_of_isOf h.code number code
      obtain rfl := isCallOf_inj h hf (hB ▸ hexecutes.isCallOf h)
      rw [← hexecutes.params]
      refine ⟨by rw [← hcall], arguments, fun hne => ?_⟩
      exact argumentsAt_of_drop drop hne
    | back caller value =>
      subst caller
      rw [callsBehind_return value, ht.same] at hcalls
      have hlength := congrArg List.length hcalls
      simp at hlength
  kept B f v hB hB' hf hv hsize := by
    obtain ⟨hnonneg, hbound⟩ := ht.cell_bounds h hB hf hv
    -- Where a cell is written, it is that of the accessed variable.
    have hwritten : ∀ {op : Opcode} {touch : Touch} {area : Area} {i : Int} {place : Nat} {u : Value}
        {stack : Array Value}, L.Has s.ip ⟨op, .int i⟩ →
        slotOf? op (.int i) = some ⟨touch, area, i⟩ → touch ≠ .load →
        (place : Int) = areaBase s area + i →
        (stack.setIfInBounds place u)[(B.cell v).toNat]? = stack[(B.cell v).toNat]? ∨
          ∃ g a, Accesses body streams s calls g a B ∧ a.target = v ∧ a.use ≠ .read := by
      intro op touch area i place u stack has hslot htouch found
      by_cases hplace : place = (B.cell v).toNat
      · obtain ⟨g, a, C, haccesses, -, hcell, hC, hread⟩ := ht.accesses h has hslot
        obtain ⟨g', hg', hw⟩ := haccesses.declared
        obtain ⟨rfl, rfl⟩ := ht.apart h hB hC hf hg' hv hw (by omega)
        exact .inr ⟨g, a, haccesses, rfl, fun hr => htouch (hread hr)⟩
      · exact .inl (Array.getElem?_setIfInBounds_ne hplace)
    cases hmoves with
    | stay has _ _ _ touches =>
      cases touches with
      | load _ _ _ stack =>
        refine .inl ?_
        rw [stack, Array.getElem?_push, if_neg (by omega)]
      | store _ found _ height stack =>
        rw [stack]
        have hpop : s.stack.pop[(B.cell v).toNat]? = s.stack[(B.cell v).toNat]? := by
          rw [Array.getElem?_pop, if_pos (by omega)]
        rw [← hpop]
        exact hwritten has rfl nofun found
      | update _ found _ _ stack =>
        rw [stack]
        exact hwritten has rfl nofun found
      | other _ kept => exact .inl (kept _ (by omega) (by omega))
    | call _ _ _ _ _ _ _ below => exact .inl (below _ (by omega))
    | back caller value stack =>
      subst caller
      rw [callsBehind_return value, ht.same] at hB'
      -- the activations that are left lie below the frame that goes away
      obtain ⟨A₁, hA₁, rfl⟩ := List.mem_map.1 hB'
      obtain ⟨k, g, hexecutes⟩ := ht.executes A₁ (List.mem_cons_of_mem _ hA₁)
      obtain rfl := isCallOf_inj h hf (hexecutes.isCallOf h)
      have hcell := hexecutes.cell hv
      have hle := List.rel_of_pairwise_cons ht.run.chained.pairwise hA₁
      refine .inl ?_
      rw [stack, Array.getElem?_extract, if_pos (by omega), Nat.zero_add]

/-- So does every instruction of a run. -/
theorem addressed_after {limits : Limits} {host : Environment} {start : State} {n : Nat}
    (h : Laid L body streams) (hs : stateAfter limits host L.program start.restart n = some s)
    (hs' : stateAfter limits host L.program start.restart (n + 1) = some s') :
    Addressed body L.program streams (callsAfter limits host L.program start.restart n)
      (callsAfter limits host L.program start.restart (n + 1)) s s' := by
  obtain ⟨A, rest, ht⟩ := tracked_after h.code hs
  obtain ⟨u, hu, hnext⟩ := stateAfter_succ hs'
  obtain rfl := Option.some.inj (hs.symm.trans hu)
  have hmeets := ht.run.advances (starts_of_code h.code start).1 limits host n
  rw [hnext] at hmeets
  obtain ⟨B, others, hmoves, -⟩ := hmeets
  rw [callsAfter, hs]
  exact ht.addressed h hmoves

end Frames

/-! ### Compiled programs -/

section Compiled

variable {environment : Environment} {body : List Stmt} {program : Program}

/-- In every state of a run of a program that compiles, the variables of all calls that have not
returned lie apart, and the next instruction accesses the variable that it was emitted for, or none. -/
theorem variables_addressed (hlisted : allListed body = true)
    (hcompile : compile environment body = .ok program) :
    ∃ streams, Accessed body program streams ∧
      ∀ (limits : Limits) (host : Environment) (start s : State) (n : Nat),
        stateAfter limits host program start.restart n = some s →
        Separated body streams s (callsAfter limits host program start.restart n) ∧
        ∀ s', stateAfter limits host program start.restart (n + 1) = some s' →
          Addressed body program streams (callsAfter limits host program start.restart n)
            (callsAfter limits host program start.restart (n + 1)) s s' := by
  obtain ⟨L, streams, rfl, hlaid⟩ := laid_of_compile hlisted hcompile
  refine ⟨streams, hlaid.accessed, fun limits host start s n hs => ?_⟩
  obtain ⟨A, rest, ht⟩ := tracked_after hlaid.code hs
  exact ⟨ht.separated hlaid, fun s' hs' => addressed_after hlaid hs hs'⟩

end Compiled

/-- A function that calls itself, with constants and variables that have the names of others:

    const limit: int = 2;
    let total: int = 0;
    function sum(n: int): int {
      const limit: int = n;
      let rest: int = 0;
      if (n > 0) rest = sum(n - 1);
      total += n;
      return rest + limit;
    }
    for (let n: int = 0; n < limit; ++n) { const depth: int = n; sum(depth); }
    sum(limit);
-/
def shadowedSum : List Stmt :=
  [.declare ⟨"limit", some (.literal (.int 2)), true, "int"⟩,
    .declare ⟨"total", some (.literal (.int 0)), false, "int"⟩,
    .function "sum" [⟨"n", "int"⟩] "int"
      [.declare ⟨"limit", some (.name "n"), true, "int"⟩,
        .declare ⟨"rest", some (.literal (.int 0)), false, "int"⟩,
        .cond (.binary .greater (.name "n") (.literal (.int 0)))
          (.expr (.assign .set (.name "rest")
            (.call (.name "sum") [.binary .sub (.name "n") (.literal (.int 1))]))) none,
        .expr (.assign .add (.name "total") (.name "n")),
        .ret (some (.binary .add (.name "rest") (.name "limit")))],
    .loop (some (.declare ⟨"n", some (.literal (.int 0)), false, "int"⟩))
      (some (.binary .less (.name "n") (.name "limit")))
      (some (.unary .increment .before (.name "n")))
      (some (.block [.declare ⟨"depth", some (.name "n"), true, "int"⟩,
        .expr (.call (.name "sum") [.name "depth"])])),
    .expr (.call (.name "sum") [.name "limit"])]

/-- In its third call, the function has called itself twice. -/
theorem shadowedSum_addressed : ∃ streams s,
    stateAfter ⟨none, 100, 8⟩ .empty (compiled .empty shadowedSum) (State.initial .empty).restart 120 = some s ∧
      3 < (callsAfter ⟨none, 100, 8⟩ .empty (compiled .empty shadowedSum)
        (State.initial .empty).restart 120).length ∧
      Separated shadowedSum streams s (callsAfter ⟨none, 100, 8⟩ .empty (compiled .empty shadowedSum)
        (State.initial .empty).restart 120) := by
  have hcompile : (compile .empty shadowedSum).isOk = true := by decide +kernel
  have hstate : (stateAfter ⟨none, 100, 8⟩ .empty (compiled .empty shadowedSum)
      (State.initial .empty).restart 120).isSome = true := by decide +kernel
  have hcalls : 3 < (callsAfter ⟨none, 100, 8⟩ .empty (compiled .empty shadowedSum)
      (State.initial .empty).restart 120).length := by decide +kernel
  obtain ⟨s, hs⟩ := Option.isSome_iff_exists.1 hstate
  obtain ⟨streams, -, hrun⟩ := variables_addressed (by decide) (compile_eq_compiled hcompile)
  exact ⟨streams, s, hs, hcalls, (hrun _ _ _ s 120 hs).1⟩

end StackScript.Machine
