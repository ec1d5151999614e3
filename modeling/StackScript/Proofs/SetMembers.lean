import StackScript.Engine
import StackScript.Proofs.Reach
import StackScript.Proofs.Runs
import StackScript.Proofs.Stores

/-!
# The members of sets

A set takes no value that equals a member, but members that are collections can come to be equal later.

* `Heap.Together`: two members of a set, in their order.
* `Heap.Spoils`: a change of the heap that makes two members of a set equal.
* `advance_changes`: what one instruction does to sets.
* `Sorted`: handles of sets and of other collections of a run never lead to the same storage, so that a
  store, which writes to no set, changes no members.
* `sets_distinct`: in every run, members of a set are unequal until an instruction changes a collection
  that can be reached from one of them.
-/

namespace StackScript

open Machine Host Bytecode

/-- In the set at `r`, the member `a` stands before the member `b`. -/
def Heap.Together (h : Heap) (r : Ref) (a b : Value) : Prop :=
  ∃ i j : Nat, i < j ∧ (h.items r)[i]? = some a ∧ (h.items r)[j]? = some b

/-- The heap `h` becomes `h'`, and with it two unequal values become equal, which then are members of the
set at `r`: something that can be reached from one of them has changed. -/
structure Heap.Spoils (h h' : Heap) (r : Ref) (a b : Value) : Prop where
  unequal : h.equal a b = false
  changed : ∃ shape q, (h.Reaches a shape q ∨ h.Reaches b shape q) ∧ h'.stored shape q ≠ h.stored shape q
  equal : h'.equal a b = true
  together : h'.Together r a b

namespace Heap

section Together

variable {h h' : Heap} {r q : Ref} {a b v : Value}

theorem Together.congr (ht : h'.Together r a b) (hitems : h'.items r = h.items r) : h.Together r a b := by
  unfold Together at ht ⊢
  rwa [← hitems]

theorem Keeps.items (hk : h.Keeps h') (hr : r < h.cells.size) : h'.items r = h.items r :=
  Cell.items.inj (hk.stored hr : h'.stored .set r = h.stored .set r)

theorem items_write_ne (w : Write) (hne : r ≠ q) : (h.write r w).items q = h.items q := by
  unfold items write
  rw [cell_modify, if_neg fun hr => hne hr.1]

/-- What is added to a set comes after all members. -/
theorem Together.of_push (ht : (h.write r (.last v)).Together q a b) :
    h.Together q a b ∨ r = q ∧ a ∈ h.items q ∧ b = v := by
  by_cases hne : r ≠ q
  · exact .inl (ht.congr (items_write_ne _ hne))
  obtain rfl := not_not.1 hne
  have hitems : (h.write r (.last v)).items r = h.items r ∨
      (h.write r (.last v)).items r = (h.items r).push v := by
    by_cases hr : r < h.cells.size
    · have hcell : (h.write r (.last v)).cell r = (Write.last v).apply (h.cell r) :=
        cell_modify.trans (if_pos ⟨rfl, hr⟩)
      unfold items
      rw [hcell]
      cases h.cell r with
      | items members => exact .inr rfl
      | fields named => exact .inl rfl
    · unfold items write
      rw [cell_modify, if_neg fun h => hr h.2]
      exact .inl rfl
  obtain hsame | hpush := hitems
  · exact .inl (ht.congr hsame)
  obtain ⟨i, j, hij, ha, hb⟩ := ht
  rw [hpush] at ha hb
  have hj : j < ((h.items r).push v).size := (Array.getElem?_eq_some_iff.1 hb).1
  rw [Array.size_push] at hj
  rw [Array.getElem?_push, if_neg (by omega)] at ha
  rw [Array.getElem?_push] at hb
  split at hb
  · exact .inr ⟨rfl, Array.mem_of_getElem? ha, (Option.some.inj hb).symm⟩
  · exact .inl ⟨i, j, hij, ha, hb⟩

/-- A set is made of values no two of which are equal. -/
theorem distinct_pairwise (values : List Value) :
    (h.distinct values).toList.Pairwise (fun a b => h.equal a b = false) := by
  unfold distinct
  suffices hfold : ∀ kept : Array Value, kept.toList.Pairwise (fun a b => h.equal a b = false) →
      (values.foldl (fun kept v => if h.contains kept v then kept else kept.push v) kept).toList.Pairwise
        (fun a b => h.equal a b = false) from
    hfold #[] .nil
  induction values with
  | nil => exact fun kept hkept => hkept
  | cons v values ih =>
    intro kept hkept
    rw [List.foldl_cons]
    split
    · exact ih kept hkept
    · next hnew =>
      refine ih _ ?_
      rw [Array.toList_push]
      refine List.pairwise_append.2 ⟨hkept, List.pairwise_singleton _ _, fun a ha b hb => ?_⟩
      obtain rfl := List.mem_singleton.1 hb
      refine Bool.eq_false_iff.2 fun hequal => hnew ?_
      exact Array.any_eq_true'.2 ⟨a, Array.mem_toList_iff.1 ha, hequal⟩

/-- Members of a new set are unequal. -/
theorem Together.of_distinct {values : List Value}
    (ht : (h.new .set (.items (h.distinct values))).2.Together h.cells.size a b) : h.equal a b = false := by
  have hitems : (h.new .set (.items (h.distinct values))).2.items h.cells.size = h.distinct values :=
    items_of_cell (cell_alloc.trans (if_pos rfl))
  obtain ⟨i, j, hij, ha, hb⟩ := ht
  rw [hitems] at ha hb
  obtain ⟨hi, rfl⟩ := Array.getElem?_eq_some_iff.1 ha
  obtain ⟨hj, rfl⟩ := Array.getElem?_eq_some_iff.1 hb
  exact List.pairwise_iff_getElem.1 (h.distinct_pairwise values) i j hi hj hij

end Together

end Heap

/-- The host has no functions of its own, and what can be reached from its bindings is in the heap and is
no set. -/
structure Host.Environment.OnlyBuiltins (environment : Environment) (h : Heap) : Prop where
  own : environment.own = Environment.noOwn
  sound : environment.Sound h
  sets : ∀ p ∈ environment.reached h, p.1 ≠ .set

namespace Machine

/-! ### One instruction -/

/-- The state in which an instruction leaves the machine, whether or not the run goes on. -/
def Progress.state : Progress → State
  | .running s | .halted s | .failed _ s | .panicked s => s

/-- What an instruction that makes no set can do to the heap, as far as sets are concerned. -/
inductive Alters (s : State) : Heap → Prop where
  /-- All collections stay as they are. -/
  | keeps {h : Heap} (hk : s.heap.Keeps h) : Alters s h
  /-- A collection is written to that can be reached from the stack, and is no set. -/
  | write {v : Value} {shape : Shape} {r : Ref} (w : Write) (hv : v ∈ s.stack)
      (hr : s.heap.Reaches v shape r) (hshape : shape ≠ .set) : Alters s (s.heap.write r w)
  /-- A set gets a value that equals no member. -/
  | push {r : Ref} {v : Value} (hnew : s.heap.contains (s.heap.items r) v = false) :
      Alters s (s.heap.write r (.last v))

section Steps

variable {limits : Limits} {environment : Environment} {program : Program} {op : Opcode} {x : Operand}
variable {s t : State} {flow : Flow} {h : Heap} {r : Ref} {a b v w : Value} {shape : Shape}
variable {arguments : List Value}

/-- What is reached from an element is reached from the collection. -/
theorem loadElement_reaches {index : Value} (hload : loadElement h v index = .ok w)
    (hr : h.Reaches w shape r) : h.Reaches v shape r := by
  -- null, which is read where there is no element, leads nowhere
  have hsome : ∀ {u : Option Value}, Except.ok (u.getD .null) = (.ok w : Except Fault Value) → u = some w := by
    intro u hu
    cases u with
    | none =>
      cases hu
      cases hr
    | some u => exact congrArg some (Except.ok.inj hu)
  cases v with
  | str s =>
    obtain ⟨place, -, hw⟩ := ok_of_except_bind hload
    obtain ⟨c, -, rfl⟩ := Option.map_eq_some_iff.1 (hsome hw)
    cases hr
  | ref shape' q =>
    cases shape' with
    | list =>
      obtain ⟨place, -, hw⟩ := ok_of_except_bind hload
      obtain ⟨i, -, hi⟩ := Option.bind_eq_some_iff.1 (hsome hw)
      exact .through (Array.mem_toList_iff.2 (Array.mem_of_getElem? hi)) hr
    | set =>
      cases hload
      cases hr
    | object =>
      obtain ⟨name, -, hw⟩ := ok_of_except_bind hload
      exact .through (Fields.mem_get? (hsome hw)) hr
  | _ => cases hload

theorem loadPath_reaches {indices : List Value} (hload : loadPath h v indices = .ok w)
    (hr : h.Reaches w shape r) : h.Reaches v shape r := by
  induction indices generalizing v with
  | nil =>
    cases hload
    exact hr
  | cons index rest ih =>
    obtain ⟨u, hu, hrest⟩ := ok_of_except_bind hload
    exact loadElement_reaches hu (ih hrest)

/-- What can be reached from the target of a store can be reached from the stack. -/
theorem Targets.reaches {below : Array Value} {target last : Value} (ht : Targets s x below target last)
    (hr : s.heap.Reaches target shape r) : ∃ v ∈ s.stack, s.heap.Reaches v shape r := by
  obtain ⟨container, indices, -, hstack, hpath⟩ := ht
  refine ⟨container, ?_, loadPath_reaches hpath hr⟩
  rw [hstack]
  exact Array.mem_append_left _ Array.mem_push_self

theorem push_ok {e : Host.Effect} (hpush : Host.push h a v = .ok e) :
    (∃ w, e = .give w) ∨ (∃ r answer, a = .ref .list r ∧ e = .write answer r (.last v)) ∨
      ∃ r answer, e = .write answer r (.last v) ∧ h.contains (h.items r) v = false := by
  unfold Host.push at hpush
  split at hpush
  · next r =>
    cases hpush
    exact .inr (.inl ⟨r, _, rfl, rfl⟩)
  · next r =>
    dsimp only at hpush
    split at hpush
    · cases hlength : lengthValue (h.items r).size <;> rw [hlength] at hpush <;> cases hpush
      exact .inl ⟨_, rfl⟩
    · next hnew =>
      cases hpush
      exact .inr (.inr ⟨r, _, rfl, Bool.eq_false_iff.2 hnew⟩)
  · cases hpush

theorem keys_ok {e : Host.Effect} (hkeys : Host.keys h a = .ok e) : ∃ c, e = .create .list c := by
  unfold Host.keys at hkeys
  split at hkeys <;> cases hkeys
  exact ⟨_, rfl⟩

/-- What a builtin does with arguments from the stack. -/
theorem plan_alters {e : Host.Effect} {b : Builtin} (harguments : ∀ v ∈ arguments, v ∈ s.stack)
    (hplan : b.plan arguments s.heap = .ok e) (output : String) :
    Alters s (e.carryOut s.heap output).heap := by
  have hgive : ∀ {α : Type} {y : Except CallError α} {f : α → Value},
      y.map (fun x => Host.Effect.give (f x)) = .ok e → Alters s (e.carryOut s.heap output).heap := by
    intro α y f hy
    cases y <;> cases hy
    exact .keeps .refl
  cases b with
  | print | str | typeOf =>
    cases hplan
    exact .keeps .refl
  | push =>
    obtain ⟨w, rfl⟩ | ⟨r, answer, hlist, rfl⟩ | ⟨r, answer, rfl, hnew⟩ := push_ok hplan
    · exact .keeps .refl
    · refine .write _ ?_ .here (nofun : Shape.list ≠ .set)
      rw [← hlist]
      cases arguments with
      | nil => cases hlist
      | cons v rest => exact harguments v List.mem_cons_self
    · exact .push hnew
  | keys =>
    obtain ⟨c, rfl⟩ := keys_ok hplan
    exact .keeps .alloc
  | sqrt => exact hgive hplan
  | _ => exact hgive (f := id) hplan

theorem call_alters (hown : environment.own = Environment.noOwn) (f : HostFunction)
    (harguments : ∀ v ∈ arguments, v ∈ s.stack) (output : String) :
    Alters s (environment.call f arguments s.heap output).heap := by
  have hbody : Alters s (environment.body f arguments s.heap output).heap := by
    unfold Environment.body
    cases f.builtin with
    | none =>
      rw [hown]
      exact .keeps .refl
    | some b =>
      dsimp only [Builtin.answer]
      split
      · next hplan => exact plan_alters harguments hplan output
      · exact .keeps .refl
  unfold Environment.call
  split
  · split
    · exact hbody
    · exact .keeps .refl
  · exact hbody

/-- The state behind a computation, whether or not it fails. -/
def EndsIn {α : Type} (y : Exec α) (s t : State) : Prop := (∃ a, y s = .ok a t) ∨ ∃ f, y s = .error f t

theorem callHost_alters (hown : environment.own = Environment.noOwn) {u : State} (hheap : u.heap = s.heap)
    (harguments : ∀ v ∈ arguments, v ∈ s.stack) (hcall : EndsIn (Exec.callHost environment v arguments) u t) :
    Alters s t.heap := by
  have hanswer : t.heap = u.heap ∨ ∃ f, t.heap = (environment.call f arguments u.heap u.output).heap := by
    unfold EndsIn Exec.callHost at hcall
    cases v with
    | host f =>
      dsimp only at hcall
      refine .inr ⟨f, ?_⟩
      generalize environment.call f arguments u.heap u.output = answer at hcall
      obtain ⟨value, heap, output⟩ := answer
      cases value <;> obtain ⟨_, hcall⟩ | ⟨_, hcall⟩ := hcall <;> cases hcall <;> rfl
    | _ =>
      obtain ⟨_, hcall⟩ | ⟨_, hcall⟩ := hcall <;> cases hcall
      exact .inl rfl
  obtain hsame | ⟨f, hanswer⟩ := hanswer
  · rw [hsame, hheap]
    exact .keeps .refl
  · rw [hanswer, hheap]
    exact call_alters hown f harguments u.output

theorem EndsIn.of_bind {α β : Type} {y : Exec α} {f : α → Exec β} (hl : EndsIn (y >>= f) s t) :
    (∃ e, y s = .error e t) ∨ ∃ a u, y s = .ok a u ∧ EndsIn (f a) u t := by
  obtain ⟨b, hok⟩ | ⟨e, herror⟩ := hl
  · obtain ⟨a, u, hy, hf⟩ := ok_of_bind hok
    exact .inr ⟨a, u, hy, .inl ⟨b, hf⟩⟩
  · obtain hy | ⟨a, u, hy, hf⟩ := error_of_bind herror
    · exact .inl ⟨e, hy⟩
    · exact .inr ⟨a, u, hy, .inr ⟨e, hf⟩⟩

/-- A call of a host function changes what the function changes, also when it fails. -/
theorem callExternal_alters (hown : environment.own = Environment.noOwn)
    (hstep : EndsIn (Exec.step limits environment .callExternal x) s t) : Alters s t.heap := by
  -- what comes before the call leaves the heap as it is
  have hbefore : ∀ {α : Type} {y : Exec α} {e : Fault} (u : State), Quiet y → u.heap = s.heap →
      y u = .error e t → Alters s t.heap := by
    intro α y e u hy hheap herror
    rw [(hy u).2 e t herror, hheap]
    exact .keeps .refl
  have hperform : EndsIn (Exec.perform limits environment .callExternal x) s t := by
    obtain ⟨e, hperform⟩ | ⟨a, u, hperform, ⟨_, hflow⟩ | ⟨_, hflow⟩⟩ := hstep.of_bind
    · exact .inr ⟨e, hperform⟩
    · cases hflow
      exact .inl ⟨a, hperform⟩
    · cases hflow
  obtain ⟨e, herror⟩ | ⟨n, s₁, hcount, hrest⟩ := hperform.of_bind
  · exact hbefore s Atomic.countOperand rfl herror
  obtain rfl := countOperand_ok hcount
  rw [countOperand_eq] at hcount
  cases hcount
  -- the callee and the arguments come off the stack
  obtain ⟨e, herror⟩ | ⟨callee, s₂, hpop, hrest⟩ := hrest.of_bind
  · exact hbefore _ Atomic.pop rfl herror
  obtain ⟨below, hstack, rfl⟩ := pop_ok hpop
  obtain ⟨e, herror⟩ | ⟨vs, s₃, hmany, hcall⟩ := hrest.of_bind
  · exact hbefore { s with stack := below } (Atomic.popMany n) rfl herror
  obtain ⟨-, rest, hbelow, rfl⟩ := popMany_ok hmany
  refine callHost_alters hown (u := { s with stack := rest }) rfl (fun v hv => ?_) hcall
  rw [hstack]
  refine Array.mem_push_of_mem _ ?_
  rw [show below = rest ++ vs from hbelow]
  exact Array.mem_append_right _ (Array.mem_toList_iff.1 hv)

theorem storeMember_step {width : Width}
    (h : Exec.step limits environment (.storeMember width) x s = .ok flow t) :
    ∃ r w, .ref .object r ∈ s.stack ∧ t.heap = s.heap.write r w := by
  obtain ⟨_, t', h, hflow⟩ := ok_of_bind h
  cases hflow
  obtain ⟨name, s₁, hname, hpops⟩ := ok_of_bind h
  obtain ⟨-, rfl⟩ := textOperand_ok hname
  obtain ⟨v, s₂, hpop, hrest⟩ := ok_of_bind hpops
  obtain ⟨below, hstack, rfl⟩ := pop_ok hpop
  obtain ⟨new, s₃, hpop', hstore⟩ := ok_of_bind hrest
  obtain ⟨below', hstack', rfl⟩ := pop_ok hpop'
  obtain ⟨r, w, hplan, rfl⟩ := store_ok hstore
  obtain ⟨rfl, -⟩ := storeMember_ok hplan
  refine ⟨r, w, ?_, rfl⟩
  rw [hstack]
  exact Array.mem_push_self

/-- An instruction that makes no set. -/
theorem step_alters (hown : environment.own = Environment.noOwn) (hop : op ≠ .newSet)
    (hstep : EndsIn (Exec.step limits environment op x) s t) : Alters s t.heap := by
  by_cases hcall : op = .callExternal
  · subst hcall
    exact callExternal_alters hown hstep
  obtain ⟨flow, hstep⟩ | ⟨f, hstep⟩ := hstep
  swap
  · rw [(step_atomic limits hcall s).2 f t hstep]
    exact .keeps .refl
  -- only stores write to collections that were there before
  by_cases hwrites : writes op = false
  · exact .keeps ((step_atomic limits hcall s).1 flow t hstep hwrites)
  -- what is written to is an object, or what the indices on the stack lead to
  have helement : ∀ {below target last r w new}, Targets s x below target last →
      storeElement s.heap limits.maxListLen target last new = .ok (r, w) → t.heap = s.heap.write r w →
        Alters s t.heap := by
    intro below target last r w new htargets hplan hheap
    obtain ⟨shape, hshape, rfl⟩ := storeElement_target hplan
    obtain ⟨v, hv, hr⟩ := htargets.reaches .here
    exact hheap ▸ .write w hv hr hshape
  cases op with
  | storeMember width =>
    obtain ⟨r, w, hobject, hheap⟩ := storeMember_step hstep
    exact hheap ▸ .write w hobject .here nofun
  | updateMember u =>
    obtain ⟨below, v, name, r, w, -, hstack, hplan, hheap⟩ := updateMember_ok hstep
    obtain ⟨rfl, -⟩ := planMember_ok hplan
    refine hheap ▸ .write w ?_ .here (nofun : Shape.object ≠ .set)
    rw [hstack]
    exact Array.mem_push_self
  | storeElement width =>
    obtain ⟨below, new, target, last, r, w, htargets, hplan, hheap⟩ := storeElement_ok hstep
    exact helement htargets hplan hheap
  | updateElement u =>
    obtain ⟨below, target, last, r, w, htargets, hplan, hheap⟩ := updateElement_ok hstep
    obtain ⟨new, -, hstored⟩ := ok_of_except_bind hplan
    obtain ⟨new', -, hstored⟩ := ok_of_except_bind hstored
    exact helement htargets hstored hheap
  | callExternal => exact absurd rfl hcall
  | _ => exact absurd rfl hwrites

/-- A set that an instruction makes has unequal members. -/
theorem newSet_endsIn (hstep : EndsIn (Exec.step limits environment .newSet x) s t) :
    t.heap = s.heap ∨ ∃ members : Array Value,
      t.heap = (s.heap.new .set (.items (s.heap.distinct members.toList))).2 := by
  obtain ⟨flow, h⟩ | ⟨f, h⟩ := hstep
  swap
  · exact .inl ((step_atomic limits (by decide) s).2 f t h)
  obtain ⟨_, t', hperform, hflow⟩ := ok_of_bind h
  cases hflow
  obtain ⟨n, s₁, hcount, hrest⟩ := ok_of_bind hperform
  obtain rfl := countOperand_ok hcount
  rw [countOperand_eq] at hcount
  cases hcount
  obtain ⟨members, s₂, hmany, hnew⟩ := ok_of_bind hrest
  obtain ⟨-, below, -, rfl⟩ := popMany_ok hmany
  cases hnew
  exact .inr ⟨members, rfl⟩

theorem proceed_heap : (proceed limits flow t).state.heap = t.heap := by
  cases flow <;> simp only [proceed, proceed.checked] <;> first | rfl | (split <;> rfl)

theorem stopped_heap {f : Fault} : (Progress.stopped f t).state.heap = t.heap := by
  cases f <;> rfl

/-- What the next instruction does to the heap, whether it makes a set or not. -/
theorem advance_changes (limits : Limits) (hown : environment.own = Environment.noOwn) (program : Program)
    (n : Nat) (s : State) :
    let h := (advance limits environment program n s).state.heap
    ((∃ x, program.code[s.ip]? = some ⟨.known .newSet, x⟩) ∧ (h = s.heap ∨
        ∃ members : Array Value, h = (s.heap.new .set (.items (s.heap.distinct members.toList))).2)) ∨
      (¬∃ x, program.code[s.ip]? = some ⟨.known .newSet, x⟩) ∧ Alters s h := by
  dsimp only
  unfold advance
  split
  · next hcode => exact .inr ⟨by simp [hcode], .keeps .refl⟩
  · next hcode => exact .inr ⟨by simp [hcode], .keeps .refl⟩
  · next op x hcode =>
    by_cases hop : op = .newSet
    · refine .inl ⟨⟨x, hop ▸ hcode⟩, ?_⟩
      subst hop
      split
      · exact .inl rfl
      · split
        · next hstep =>
          rw [proceed_heap]
          exact newSet_endsIn (.inl ⟨_, hstep⟩)
        · next hstep =>
          rw [stopped_heap]
          exact newSet_endsIn (.inr ⟨_, hstep⟩)
    · refine .inr ⟨by simp [hcode, hop], ?_⟩
      split
      · exact .keeps .refl
      · split
        · next hstep =>
          rw [proceed_heap]
          exact step_alters hown hop (.inl ⟨_, hstep⟩)
        · next hstep =>
          rw [stopped_heap]
          exact step_alters hown hop (.inr ⟨_, hstep⟩)

end Steps

/-! ### Kinds of storage -/

/-- Where the handles of a run may lead, if its sets are stored at the places `sets`: handles of sets lead
to these, all others elsewhere. -/
def kindsOf (sets : Set Ref) : Set (Shape × Ref) := {p | p.1 = .set ↔ p.2 ∈ sets}

/-- The handles that a run has of the collections that it has made: from `base` on, and each kind in its
place. -/
abbrev madeOf (base : Nat) (sets : Set Ref) (n : Nat) : Set (Shape × Ref) :=
  (Chart.above base 0 (kindsOf sets)).region n

/-- Handles on the stack and inside collections lead only to what the run has made, each kind in its place,
and what the host has is as it was. -/
structure Sorted (host : Heap) (sets : Set Ref) (s : State) : Prop where
  states : (Chart.above host.cells.size 0 (kindsOf sets)).States s s
  keeps : host.Keeps s.heap

section Sorted

variable {limits : Limits} {environment : Environment} {program : Program} {host : Heap}
variable {sets sets' : Set Ref} {s : State} {h : Heap} {v : Value} {shape : Shape} {r : Ref} {a b : Value}
variable {base n : Nat}

theorem madeOf_congr (hsame : ∀ r < n, r ∈ sets ↔ r ∈ sets') : madeOf base sets n = madeOf base sets' n := by
  ext p
  refine and_congr_right fun _ => and_congr_right fun hp => ?_
  exact iff_congr Iff.rfl (hsame p.2 hp)

/-- Which places above the heap are for sets is open. -/
theorem Sorted.congr (hs : Sorted host sets s) (hsame : ∀ r < s.heap.cells.size, r ∈ sets ↔ r ∈ sets') :
    Sorted host sets' s := by
  have hmade : (Chart.above host.cells.size 0 (kindsOf sets')).region s.heap.cells.size =
      (Chart.above host.cells.size 0 (kindsOf sets)).region s.heap.cells.size := (madeOf_congr hsame).symm
  obtain ⟨⟨-, hstack, hinside, hip, hfp, ⟨hreturned, hin⟩, ⟨hsize, hcell, hcells⟩, houtput⟩, hkeeps⟩ := hs
  rw [← hmade] at hinside hin hcell hcells
  exact ⟨⟨Chart.above_faithful, hstack, hinside, hip, hfp, ⟨hreturned, hin⟩, ⟨hsize, hcell, hcells⟩, houtput⟩,
    hkeeps⟩

/-- What the run can reach is in its place. -/
theorem Sorted.reaches (hs : Sorted host sets s) (hr : s.heap.Reaches v shape r)
    (hv : v.Inside (madeOf host.cells.size sets s.heap.cells.size)) :
    (shape, r) ∈ madeOf host.cells.size sets s.heap.cells.size :=
  hr.inside (fun _ _ hr => hs.states.heap.inside_stored hr) hv

/-- Members of a set that have come together by an instruction that makes no set were unequal before. -/
theorem Sorted.together (hs : Sorted host sets s) (hr : r ∈ sets) (halters : Alters s h)
    (hlt : r < s.heap.cells.size) (ht : h.Together r a b) :
    s.heap.Together r a b ∨ s.heap.equal a b = false := by
  cases halters with
  | keeps hk => exact .inl (ht.congr (hk.items hlt))
  | @write v shape q w hv hq hshape =>
    -- a store that hit the set would have found it by the handle of another kind
    have hne : q ≠ r := by
      rintro rfl
      exact hshape ((hs.reaches hq (hs.states.inside v hv)).2.2.2 hr)
    exact .inl (ht.congr (Heap.items_write_ne w hne))
  | @push q v hnew =>
    obtain ht | ⟨rfl, ha, rfl⟩ := ht.of_push
    · exact .inl ht
    · refine .inr (Bool.eq_false_iff.2 fun hequal => ?_)
      have hcontains : s.heap.contains (s.heap.items q) b = true := Array.any_eq_true'.2 ⟨a, ha, hequal⟩
      rw [hnew] at hcontains
      cases hcontains

/-- Each kind stays in its place behind an instruction, if what the instruction makes gets the right one. -/
theorem Sorted.next (henv : environment.OnlyBuiltins host) (limits : Limits) (n : Nat)
    (hs : Sorted host sets s)
    (hmakes : ∀ op x, program.code[s.ip]? = some ⟨.known op, x⟩ →
      ∀ shape, makes op = some shape → (shape = .set ↔ s.heap.cells.size ∈ sets))
    (hcopies : ∀ x, program.code[s.ip]? = some ⟨.known .loadExternal, x⟩ →
      ∀ r, s.heap.cells.size ≤ r → r ∉ sets) :
    Sorted host sets (advance limits environment program n s).state ∧
      s.heap.cells.size ≤ (advance limits environment program n s).state.heap.cells.size := by
  have hone := Chart.advance_charted limits program n hs.states
    fun op x hcode => Chart.suits_above henv.own henv.sound hs.keeps hs.keeps (hmakes op x hcode) ?_ hs.states.heap
  · generalize advance limits environment program n s = p at hone
    cases p <;> cases hone <;> (next ht hg => exact ⟨⟨ht, hg.keeps hs.keeps⟩, hg.size⟩)
  · rintro rfl p hp r hr
    exact iff_of_false (henv.sets p hp) (hcopies x hcode r hr)

/-- One instruction of a run: if members of a set are equal behind it, they were so before, or the
instruction has made them equal. -/
theorem Sorted.spoils (henv : environment.OnlyBuiltins host) (limits : Limits) (program : Program) (n : Nat)
    (hs : Sorted host sets s) :
    let t := (advance limits environment program n s).state
    ∃ sets', Sorted host sets' t ∧
      madeOf host.cells.size sets s.heap.cells.size ⊆ madeOf host.cells.size sets' t.heap.cells.size ∧
        ∀ r ∈ sets', r < t.heap.cells.size → ∀ a b, t.heap.Together r a b → t.heap.equal a b = true →
          (r ∈ sets ∧ r < s.heap.cells.size ∧ s.heap.Together r a b ∧ s.heap.equal a b = true) ∨
            s.heap.Spoils t.heap r a b := by
  intro t
  -- places above the heap are for sets only if the instruction makes one
  have hsorted : ∀ sets', (∀ r < s.heap.cells.size, r ∈ sets ↔ r ∈ sets') →
      (∀ op x, program.code[s.ip]? = some ⟨.known op, x⟩ →
        ∀ shape, makes op = some shape → (shape = .set ↔ s.heap.cells.size ∈ sets')) →
      (∀ x, program.code[s.ip]? = some ⟨.known .loadExternal, x⟩ → ∀ r, s.heap.cells.size ≤ r → r ∉ sets') →
      Sorted host sets' t ∧
        madeOf host.cells.size sets s.heap.cells.size ⊆ madeOf host.cells.size sets' t.heap.cells.size := by
    intro sets' hsame hmakes hcopies
    obtain ⟨ht, hsize⟩ := (hs.congr hsame).next henv limits n hmakes hcopies
    refine ⟨ht, ?_⟩
    rw [madeOf_congr hsame]
    exact Chart.above_faithful.mono hsize
  have hspoils : ∀ {r a b}, t.heap.Together r a b → t.heap.equal a b = true →
      (r ∈ sets ∧ r < s.heap.cells.size ∧ s.heap.Together r a b) ∨ s.heap.equal a b = false →
        (r ∈ sets ∧ r < s.heap.cells.size ∧ s.heap.Together r a b ∧ s.heap.equal a b = true) ∨
          s.heap.Spoils t.heap r a b := by
    intro r a b ht hequal hbefore
    cases hunequal : s.heap.equal a b with
    | false => exact .inr ⟨hunequal, Heap.changed_of_equal hunequal hequal, hequal, ht⟩
    | true =>
      obtain ⟨hr, hlt, htogether⟩ := hbefore.resolve_right (by simp [hunequal])
      exact .inl ⟨hr, hlt, htogether, rfl⟩
  -- the instruction makes a set, whose members are distinct, or it alters older collections
  obtain ⟨⟨x, hcode⟩, hheap⟩ | ⟨hnot, halters⟩ := advance_changes limits henv.own program n s
  · have hsame : ∀ r < s.heap.cells.size, r ∈ sets ↔ r ∈ insert s.heap.cells.size sets :=
      fun r hr => by simp [Nat.ne_of_lt hr]
    have hmakes : ∀ op x, program.code[s.ip]? = some ⟨.known op, x⟩ → ∀ shape, makes op = some shape →
        (shape = .set ↔ s.heap.cells.size ∈ insert s.heap.cells.size sets) := by
      intro op x' hcode' shape hshape
      cases hcode.symm.trans hcode'
      cases hshape
      exact iff_of_true rfl (Set.mem_insert _ _)
    obtain ⟨ht, hmade⟩ := hsorted _ hsame hmakes fun x' hcode' => nomatch hcode.symm.trans hcode'
    refine ⟨_, ht, hmade, fun r hr hlt a b htogether hequal => hspoils htogether hequal ?_⟩
    change t.heap = s.heap ∨ ∃ members : Array Value,
      t.heap = (s.heap.new .set (.items (s.heap.distinct members.toList))).2 at hheap
    obtain hheap | ⟨members, hheap⟩ := hheap
    · rw [hheap] at hlt htogether
      exact .inl ⟨(hsame r hlt).2 hr, hlt, htogether⟩
    · rw [hheap] at hlt htogether
      obtain hlt | rfl := Nat.lt_or_eq_of_le (Nat.le_of_lt_succ (Heap.alloc_size ▸ hlt))
      · exact .inl ⟨(hsame r hlt).2 hr, hlt, htogether.congr (Heap.Keeps.alloc.items hlt)⟩
      · -- two members of the new set
        exact .inr htogether.of_distinct
  · have hsame : ∀ r < s.heap.cells.size, r ∈ sets ↔ r ∈ {r | r ∈ sets ∧ r < s.heap.cells.size} :=
      fun r hr => by simp [hr]
    have hmakes : ∀ op x, program.code[s.ip]? = some ⟨.known op, x⟩ → ∀ shape, makes op = some shape →
        (shape = .set ↔ s.heap.cells.size ∈ {r | r ∈ sets ∧ r < s.heap.cells.size}) := by
      intro op x hcode shape hshape
      refine iff_of_false ?_ fun h => Nat.lt_irrefl _ h.2
      rintro rfl
      cases op <;> cases hshape
      exact hnot ⟨x, hcode⟩
    obtain ⟨ht, hmade⟩ := hsorted _ hsame hmakes fun _ _ r hr h => Nat.not_lt.2 hr h.2
    refine ⟨_, ht, hmade, fun r hr _ a b htogether hequal => hspoils htogether hequal ?_⟩
    exact (hs.together hr.1 halters hr.2 htogether).imp_left fun h => ⟨hr.1, hr.2, h⟩

end Sorted

/-! ### A run -/

section Run

variable {limits : Limits} {environment : Environment} {program : Program} {machine s : State}
variable {v : Value} {r : Ref} {a b : Value} {n : Nat} {seen : Set State}

/-- The states that a run has come to with so many instructions. -/
def statesUntil (limits : Limits) (environment : Environment) (program : Program) (start : State) (n : Nat) :
    Set State :=
  {u | ∃ k ≤ n, stateAfter limits environment program start k = some u}

/-- What a run has had its hands on: the values on the stack and the last value returned, in one of the
states that have been seen, and the bindings of the host. -/
inductive Held (environment : Environment) (seen : Set State) : Value → Prop
  | stack {s : State} {v : Value} (hs : s ∈ seen) (hv : v ∈ s.stack) : Held environment seen v
  | returned {s : State} (hs : s ∈ seen) : Held environment seen s.returned
  | bound {name : String} {binding : Binding} (hb : environment.get? name = some binding) :
      Held environment seen binding.value

/-- At the `k`-th instruction of the run, two members of a set are made equal. -/
def SpoiltAt (limits : Limits) (environment : Environment) (program : Program) (start : State)
    (r : Ref) (a b : Value) (k : Nat) : Prop :=
  ∃ u, stateAfter limits environment program start k = some u ∧
    u.heap.Spoils (advance limits environment program k u).state.heap r a b

/-- How a run stands when it has come to the state `t`: each kind is in its place, also for what it had its
hands on before, and members of its sets that are equal have been made so. -/
structure StandsAt (limits : Limits) (environment : Environment) (program : Program) (machine : State)
    (n : Nat) (seen : Set State) (t : State) (sets : Set Ref) : Prop where
  sorted : Sorted machine.heap sets t
  held : ∀ u ∈ seen, (∀ v ∈ u.stack, v.Inside (madeOf machine.heap.cells.size sets t.heap.cells.size)) ∧
    u.returned.Inside (madeOf machine.heap.cells.size sets t.heap.cells.size)
  spoilt : ∀ r ∈ sets, r < t.heap.cells.size → ∀ a b, t.heap.Together r a b → t.heap.equal a b = true →
    ∃ k < n, SpoiltAt limits environment program machine.restart r a b k

theorem StandsAt.restart :
    StandsAt limits environment program machine 0 {machine.restart} machine.restart ∅ := by
  refine ⟨⟨Chart.restart_above _ rfl rfl, .refl⟩, ?_, nofun⟩
  rintro u rfl
  exact ⟨by simp [State.restart], Value.inside_of_isScalar rfl⟩

/-- What an instruction makes of this. -/
theorem StandsAt.advance {sets : Set Ref} (henv : environment.OnlyBuiltins machine.heap)
    (hs : stateAfter limits environment program machine.restart n = some s)
    (hstands : StandsAt limits environment program machine n seen s sets) :
    ∃ sets', StandsAt limits environment program machine (n + 1)
      (insert (advance limits environment program n s).state seen)
      (advance limits environment program n s).state sets' := by
  obtain ⟨sets', hsorted, hmade, hspoils⟩ := hstands.sorted.spoils henv limits program n
  refine ⟨sets', hsorted, ?_, fun r hr hlt a b ht hequal => ?_⟩
  · rintro u (rfl | hu)
    · exact ⟨hsorted.states.inside, hsorted.states.returned.2⟩
    · exact ⟨fun v hv => ((hstands.held u hu).1 v hv).mono hmade, (hstands.held u hu).2.mono hmade⟩
  · obtain ⟨hr, hlt, ht, hequal⟩ | hspoils := hspoils r hr hlt a b ht hequal
    · obtain ⟨k, hk, hspoilt⟩ := hstands.spoilt r hr hlt a b ht hequal
      exact ⟨k, Nat.lt_succ_of_lt hk, hspoilt⟩
    · exact ⟨n, Nat.lt_succ_self n, s, hs, hspoils⟩

theorem stands_after (henv : environment.OnlyBuiltins machine.heap)
    (hs : stateAfter limits environment program machine.restart n = some s) :
    ∃ sets, StandsAt limits environment program machine n
      (statesUntil limits environment program machine.restart n) s sets := by
  induction n generalizing s with
  | zero =>
    obtain rfl := Option.some.inj hs
    have hseen : statesUntil limits environment program machine.restart 0 = {machine.restart} := by
      ext u
      constructor
      · rintro ⟨k, hk, hu⟩
        obtain rfl := Nat.le_zero.1 hk
        exact (Option.some.inj hu).symm
      · rintro rfl
        exact ⟨0, Nat.le_refl 0, rfl⟩
    exact ⟨∅, hseen ▸ .restart⟩
  | succ n ih =>
    obtain ⟨u, hu, hadvance⟩ := stateAfter_succ hs
    obtain ⟨sets, hstands⟩ := ih hu
    obtain ⟨sets', hnext⟩ := hstands.advance henv hu
    rw [hadvance] at hnext
    refine ⟨sets', hnext.sorted, ?_, hnext.spoilt⟩
    rintro w ⟨k, hk, hw⟩
    obtain hk | rfl := Nat.lt_or_eq_of_le hk
    · exact hnext.held w (.inr ⟨k, Nat.le_of_lt_succ hk, hw⟩)
    · exact hnext.held w (.inl (Option.some.inj (hw.symm.trans hs)))

/-- **Sets hold unequal values, as long as these stay as they are.**  After every instruction of every run
with the builtins, two members of a set are unequal, unless they are two different collections, and an
instruction of the run has made them equal: it has changed one of them, or a collection that can be reached
from them. -/
theorem sets_distinct (henv : environment.OnlyBuiltins machine.heap)
    (hs : stateAfter limits environment program machine.restart n = some s) :
    let t := (advance limits environment program n s).state
    ∀ v r a b, Held environment (insert t (statesUntil limits environment program machine.restart n)) v →
      t.heap.Reaches v .set r → t.heap.Together r a b → t.heap.equal a b = false ∨
        (∃ shape p q, a = .ref shape p ∧ b = .ref shape q ∧ p ≠ q) ∧
          ∃ k ≤ n, SpoiltAt limits environment program machine.restart r a b k := by
  intro t v r a b hv hr ht
  obtain ⟨sets, hstands⟩ := stands_after henv hs
  obtain ⟨sets', hnext⟩ := hstands.advance henv hs
  -- what the run has made is in its place, and what the host has is no set
  obtain ⟨hlt, hset⟩ : r < t.heap.cells.size ∧ r ∈ sets' := by
    have hinside : ∀ {v}, v.Inside (madeOf machine.heap.cells.size sets' t.heap.cells.size) →
        t.heap.Reaches v .set r → r < t.heap.cells.size ∧ r ∈ sets' := by
      intro v hin hr
      obtain ⟨-, hlt, hkind⟩ := hnext.sorted.reaches hr hin
      exact ⟨hlt, hkind.1 rfl⟩
    cases hv with
    | stack hu hv => exact hinside ((hnext.held _ hu).1 v hv) hr
    | returned hu => exact hinside (hnext.held _ hu).2 hr
    | @bound name binding hb =>
      -- what the host has bound is as it was at the start
      have hkept : ∀ shape q, machine.heap.Reaches binding.value shape q →
          t.heap.stored shape q = machine.heap.stored shape q := fun shape q hq =>
        hnext.sorted.keeps.stored (henv.sound (shape, q) ⟨name, binding, hb, hq⟩)
      exact absurd rfl (henv.sets (.set, r) ⟨name, binding, hb, hr.of_same hkept⟩)
  cases hequal : t.heap.equal a b with
  | false => exact .inl rfl
  | true =>
    obtain ⟨k, hk, u, hu, hspoils⟩ := hnext.spoilt r hset hlt a b ht hequal
    exact .inr ⟨Heap.refs_of_equal hspoils.unequal hspoils.equal, k, Nat.le_of_lt_succ hk, u, hu, hspoils⟩

end Run

/-! ### The functions of every host -/

/-- Among the values of every host there is one collection, the object that holds some of its functions. -/
theorem standard_onlyBuiltins : Host.standard.1.OnlyBuiltins Host.standard.2 := by
  have hinside : ∀ p ∈ Host.standard.1.reached Host.standard.2, p = (.object, 0) := by
    rintro ⟨shape, r⟩ ⟨name, binding, hb, hr⟩
    refine hr.inside (R := {(.object, 0)}) ?_ ?_
    · rintro shape r hobject
      cases hobject
      have hall : ∀ v ∈ (Host.standard.2.stored .object 0).values, v.isScalar = true := by decide +kernel
      exact fun v hv => Value.inside_of_isScalar (hall v hv)
    · have hall : ∀ p ∈ Host.standard.1.bindings, p.2.value.isScalar = true ∨ p.2.value = .ref .object 0 := by
        decide +kernel
      obtain hscalar | hobject := hall (name, binding) (mem_of_lookup hb)
      · exact Value.inside_of_isScalar hscalar
      · exact hobject ▸ Value.inside_ref.2 rfl
  refine ⟨rfl, fun p hp => ?_, fun p hp => ?_⟩
  · rw [hinside p hp]
    decide +kernel
  · rw [hinside p hp]
    exact nofun

/-- Two lists that are unequal, until one is changed:

    let a = [1];
    let b = [2];
    let s = #{a, b};
    b[0] = 1;
    s;
-/
def twins : List Syntax.Stmt :=
  [.declare ⟨"a", some (.array [.literal (.int 1)]), false, "any"⟩,
    .declare ⟨"b", some (.array [.literal (.int 2)]), false, "any"⟩,
    .declare ⟨"s", some (.set [.name "a", .name "b"]), false, "any"⟩,
    .expr (.assign .set (.index (.name "b") [.literal (.int 0)]) (.literal (.int 1))),
    .expr (.name "s")]

theorem twins_run : ∃ s, stateAfter .standard (Engine.new .standard).environment
      (compiled (Engine.new .standard).environment twins) (Engine.new .standard).machine.restart 16 = some s ∧
    .ref .set 3 ∈ s.stack ∧ s.heap.items 3 = #[.ref .list 1, .ref .list 2] ∧
      s.heap.equal (.ref .list 1) (.ref .list 2) = true := by
  have hrun : (stateAfter .standard (Engine.new .standard).environment
      (compiled (Engine.new .standard).environment twins) (Engine.new .standard).machine.restart 16).any
        (fun s => decide (Value.ref .set 3 ∈ s.stack ∧ s.heap.items 3 = #[.ref .list 1, .ref .list 2] ∧
          s.heap.equal (.ref .list 1) (.ref .list 2) = true)) = true := by decide +kernel
  obtain ⟨s, hs, hcheck⟩ := (Option.any_eq_true _ _).1 hrun
  exact ⟨s, hs, of_decide_eq_true hcheck⟩

/-- The set, which lies on the stack, has two equal members at last. -/
theorem twins_equal : ∃ s r a b, stateAfter .standard (Engine.new .standard).environment
      (compiled (Engine.new .standard).environment twins) (Engine.new .standard).machine.restart 16 = some s ∧
    .ref .set r ∈ s.stack ∧ s.heap.Together r a b ∧ s.heap.equal a b = true := by
  obtain ⟨s, hs, hstack, hset, hequal⟩ := twins_run
  refine ⟨s, 3, .ref .list 1, .ref .list 2, hs, hstack, ⟨0, 1, Nat.zero_lt_one, ?_⟩, hequal⟩
  rw [hset]
  exact ⟨rfl, rfl⟩

/-- An instruction that came earlier has made them equal. -/
theorem twins_spoilt : Host.standard.1.OnlyBuiltins Host.standard.2 ∧
    ∃ k ≤ 15, SpoiltAt .standard Host.standard.1 (compiled Host.standard.1 twins)
      (State.initial Host.standard.2).restart 3 (.ref .list 1) (.ref .list 2) k := by
  obtain ⟨s, hs, hstack, hset, hequal⟩ := twins_run
  obtain ⟨u, hu, hadvance⟩ := stateAfter_succ hs
  have henv : (Engine.new .standard).environment.OnlyBuiltins (Engine.new .standard).machine.heap :=
    standard_onlyBuiltins
  have hdistinct := sets_distinct henv hu
  rw [hadvance] at hdistinct
  have htogether : s.heap.Together 3 (.ref .list 1) (.ref .list 2) := by
    refine ⟨0, 1, Nat.zero_lt_one, ?_⟩
    rw [hset]
    exact ⟨rfl, rfl⟩
  obtain hunequal | ⟨-, hspoilt⟩ := hdistinct (.ref .set 3) 3 _ _ (.stack (.inl rfl) hstack) .here htogether
  · exact absurd (hequal.symm.trans hunequal) nofun
  · exact ⟨standard_onlyBuiltins, hspoilt⟩

end Machine

end StackScript
