import Mathlib.Data.List.Forall2
import Mathlib.Data.List.Nodup
import StackScript.Proofs.Scopes

/-!
# Open frames

What holds of a chain after any operations, in whatever order they come.

* `Ledger`: a chain, and what has been declared in each of its open frames.
* `FrameKept`: a frame lists its variables, each at its slot, and parameters lie below it.
* `Nested`: operations in which every block and every function is closed by its own end.
* `Ledger.run_nested`: such operations only add to the block and the frame in use.
* `frames_kept`: what a chain is like after any operations, and what a block and a function leave of it.
-/

namespace StackScript.Assembly.ScopeChain

open Typing Bytecode Host

/-! ### Operations -/

/-- A name to be declared. -/
inductive Naming where
  | var (name : String) (constant : Bool) (type : Ty)
  | param (name : String) (index count : Nat) (type : Ty)
  | function (name : String) (entry : Label) (signature : Signature)

def Naming.declareIn (c : ScopeChain) : Naming → Except CompileError Entity × ScopeChain
  | var name constant type => c.declareLocal name constant type
  | param name index count type => c.declareParam name index count type
  | function name entry signature => c.declareFunction name entry signature

/-- What changes a chain.  Looking names up does not. -/
inductive Operation where
  | beginScope | endScope | beginFunction | endFunction
  | declare (n : Naming)

def perform (c : ScopeChain) : Operation → ScopeChain
  | .beginScope => c.beginScope
  | .endScope => c.endScope
  | .beginFunction => c.beginFunction
  | .endFunction => c.endFunction.2
  | .declare n => (n.declareIn c).2

/-- A name that is refused leaves the chain as it is. -/
theorem Naming.declareIn_eq_error {c c' : ScopeChain} {n : Naming} {x : CompileError}
    (h : n.declareIn c = (.error x, c')) : c' = c := by
  cases n with
  | var => exact declareLocal_eq_error h
  | param => exact declareParam_eq_error h
  | function => exact declareFunction_eq_error h

/-- Operations in which every block and every function is closed by its own end. -/
inductive Nested : List Operation → Prop
  | nil : Nested []
  | declare (n : Naming) {rest : List Operation} (hrest : Nested rest) : Nested (.declare n :: rest)
  | block {inside rest : List Operation} (hinside : Nested inside) (hrest : Nested rest) :
      Nested (.beginScope :: (inside ++ .endScope :: rest))
  | function {inside rest : List Operation} (hinside : Nested inside) (hrest : Nested rest) :
      Nested (.beginFunction :: (inside ++ .endFunction :: rest))

/-! ### What has been declared -/

/-- A chain, and what has been declared in the frame in use and in those around it, in order. -/
structure Ledger where
  chain : ScopeChain
  declared : List (Naming × Entity)
  outer : List (List (Naming × Entity))

/-- The variables among what has been declared in a frame. -/
def locals (ds : List (Naming × Entity)) : List Entity :=
  ds.filterMap fun
    | (.var _ _ _, e) => some e
    | _ => none

/-- The parameters among what has been declared in a frame, each with its index and the number of
parameters in its list. -/
def params (ds : List (Naming × Entity)) : List ((Nat × Nat) × Entity) :=
  ds.filterMap fun
    | (.param _ index count _, e) => some ((index, count), e)
    | _ => none

/-- Parameters that belong to one parameter list. -/
def OneList (ps : List ((Nat × Nat) × Entity)) : Prop :=
  ∃ count, (∀ p ∈ ps, p.1.1 < count ∧ p.1.2 = count) ∧ (ps.map (·.1.1)).Nodup

namespace Ledger

/-- Nothing has been declared. -/
def empty : Ledger := ⟨.empty, [], []⟩

/-- Carries out an operation, and notes what it declares. -/
def perform (a : Ledger) : Operation → Ledger
  | .beginScope => { a with chain := a.chain.beginScope }
  | .endScope => { a with chain := a.chain.endScope }
  | .beginFunction => ⟨a.chain.beginFunction, [], a.declared :: a.outer⟩
  | .endFunction =>
    match a.outer with
    | [] => { a with chain := a.chain.endFunction.2 }
    | ds :: outer => ⟨a.chain.endFunction.2, ds, outer⟩
  | .declare n =>
    match n.declareIn a.chain with
    | (.ok e, c) => { a with chain := c, declared := a.declared ++ [(n, e)] }
    | (.error _, c) => { a with chain := c }

def run (a : Ledger) (ops : List Operation) : Ledger := ops.foldl perform a

variable {a b : Ledger}

@[simp] theorem run_nil : a.run [] = a := rfl

@[simp] theorem run_cons (op : Operation) (ops : List Operation) : a.run (op :: ops) = (a.perform op).run ops := rfl

@[simp] theorem run_append (ops ops' : List Operation) : a.run (ops ++ ops') = (a.run ops).run ops' :=
  List.foldl_append ..

/-- The ledger's chain is the chain that the operations lead to. -/
theorem chain_perform (op : Operation) : (a.perform op).chain = a.chain.perform op := by
  cases op with
  | endFunction =>
    simp only [perform, ScopeChain.perform]
    split <;> rfl
  | declare n =>
    simp only [perform, ScopeChain.perform]
    split <;> next hn => rw [hn]
  | _ => rfl

theorem chain_run (ops : List Operation) : (a.run ops).chain = ops.foldl ScopeChain.perform a.chain := by
  induction ops generalizing a with
  | nil => rfl
  | cons op ops ih => rw [run_cons, ih, chain_perform, List.foldl_cons]

end Ledger

/-! ### Frames -/

section Frames

variable {names : Array String} {ds : List (Naming × Entity)} {n : Naming} {e : Entity}

theorem locals_append (ds' : List (Naming × Entity)) : locals (ds ++ ds') = locals ds ++ locals ds' :=
  List.filterMap_append

theorem params_append (ds' : List (Naming × Entity)) : params (ds ++ ds') = params ds ++ params ds' :=
  List.filterMap_append

/-- The frame lists the variables that have been declared in it, all of different names, and the slot of
each is its place in the list.  Parameters lie below the two cells that a call saves. -/
structure FrameKept (names : Array String) (ds : List (Naming × Entity)) : Prop where
  listed : names.toList = (locals ds).map (·.name)
  distinct : names.toList.Nodup
  slots : ∀ (i : Nat) (e : Entity), (locals ds)[i]? = some e → e.location = .slot i
  params : ∀ p ∈ params ds, p.2.location = .slot (Int.ofNat p.1.1 - Int.ofNat p.1.2 - 2)

namespace FrameKept

theorem empty : FrameKept #[] [] := ⟨rfl, List.nodup_nil, by simp [locals], by simp [ScopeChain.params]⟩

variable (h : FrameKept names ds)
include h

theorem size : names.size = (locals ds).length := by
  rw [← Array.length_toList, h.listed, List.length_map]

/-- A new variable gets the next slot. -/
theorem addVar {name : String} {constant : Bool} {type : Ty} (hname : e.name = name) (hnew : name ∉ names)
    (hslot : e.location = .slot names.size) : FrameKept (names.push name) (ds ++ [(.var name constant type, e)]) := by
  have hlocals : locals (ds ++ [(.var name constant type, e)]) = locals ds ++ [e] := locals_append _
  have hparams : ScopeChain.params (ds ++ [(.var name constant type, e)]) = ScopeChain.params ds :=
    (params_append _).trans (List.append_nil _)
  refine ⟨?_, ?_, fun i f hf => ?_, hparams ▸ h.params⟩
  · rw [Array.toList_push, h.listed, hlocals, List.map_append, List.map_singleton, hname]
  · rw [Array.toList_push]
    refine List.nodup_append.2 ⟨h.distinct, List.nodup_singleton _, ?_⟩
    rintro x hx y hy rfl
    rw [List.mem_singleton.1 hy] at hx
    exact hnew (Array.mem_toList_iff.1 hx)
  · rw [hlocals, List.getElem?_append] at hf
    split at hf
    · exact h.slots i f hf
    · next hi =>
      rw [List.getElem?_singleton] at hf
      split at hf
      · next hzero =>
        obtain rfl := Option.some.inj hf
        rw [hslot, h.size, show i = (locals ds).length by omega]
      · cases hf

/-- A parameter or a function takes no place in the frame. -/
theorem addOther (hlocals : locals (ds ++ [(n, e)]) = locals ds)
    (hparams : ∀ p ∈ ScopeChain.params [(n, e)], p.2.location = .slot (Int.ofNat p.1.1 - Int.ofNat p.1.2 - 2)) :
    FrameKept names (ds ++ [(n, e)]) := by
  refine ⟨?_, h.distinct, ?_, fun p hp => ?_⟩
  · rw [hlocals]
    exact h.listed
  · rw [hlocals]
    exact h.slots
  · rw [params_append] at hp
    exact (List.mem_append.1 hp).elim (h.params p) (hparams p)

/-- The name at the slot of a variable is that of the variable. -/
theorem name_at {i : Nat} {e : Entity} (he : (locals ds)[i]? = some e) : names[i]? = some e.name := by
  rw [← Array.getElem?_toList, h.listed, List.getElem?_map, he]
  rfl

/-- Variables, and parameters of one list, lie in different slots. -/
theorem apart (hone : OneList (ScopeChain.params ds)) :
    ((locals ds).map (·.location) ++ (ScopeChain.params ds).map (·.2.location)).Nodup := by
  obtain ⟨count, hcount, hindices⟩ := hone
  refine List.nodup_append.2 ⟨?_, ?_, ?_⟩
  · rw [List.nodup_iff_getElem?_ne_getElem?]
    intro i j hij hj heq
    rw [List.length_map] at hj
    have hi := Nat.lt_trans hij hj
    rw [List.getElem?_map, List.getElem?_map, List.getElem?_eq_getElem hi, List.getElem?_eq_getElem hj,
      Option.map_some, Option.map_some, h.slots _ _ (List.getElem?_eq_getElem hi),
      h.slots _ _ (List.getElem?_eq_getElem hj)] at heq
    have := Location.slot.inj (Option.some.inj heq)
    omega
  · have hmap : (ScopeChain.params ds).map (·.2.location) =
        ((ScopeChain.params ds).map (·.1.1)).map fun index => .slot (Int.ofNat index - Int.ofNat count - 2) := by
      rw [List.map_map]
      exact List.map_congr_left fun p hp => by rw [h.params p hp, (hcount p hp).2, Function.comp_apply]
    rw [hmap]
    refine List.Nodup.map (fun i j hij => ?_) hindices
    simp only [Location.slot.injEq, Int.ofNat_eq_natCast] at hij
    omega
  · -- a slot of the frame is none below it
    rintro x hx y hy rfl
    obtain ⟨e, he, rfl⟩ := List.mem_map.1 hx
    obtain ⟨p, hp, hxy⟩ := List.mem_map.1 hy
    obtain ⟨i, hi⟩ := List.mem_iff_getElem?.1 he
    rw [h.params p hp, h.slots i e hi] at hxy
    obtain ⟨hlt, hlist⟩ := hcount p hp
    simp only [Location.slot.injEq, Int.ofNat_eq_natCast] at hxy
    omega

end FrameKept

end Frames

/-! ### Any operations -/

/-- The frames that the open blocks belong to, innermost first. -/
def levels (c : ScopeChain) : List Nat := c.scopes.map (·.frame)

/-- Blocks lie in the order of their frames; the outermost one belongs to the top level. -/
structure Ordered (levels : List Nat) (depth : Nat) : Prop where
  below : ∀ l ∈ levels, l ≤ depth
  sorted : levels.Pairwise (· ≥ ·)
  outermost : levels.getLast? = some 0

namespace Ordered

variable {ls ls' : List Nat} {depth depth' l : Nat}

/-- A new block, of a frame at least as deep as those that are open. -/
theorem cons (h : Ordered ls depth) (hdepth : depth ≤ depth') : Ordered (depth' :: ls) depth' := by
  have hle : ∀ l ∈ ls, l ≤ depth' := fun l hl => Nat.le_trans (h.below l hl) hdepth
  refine ⟨fun l hl => ?_, List.pairwise_cons.2 ⟨hle, h.sorted⟩, ?_⟩
  · rcases List.mem_cons.1 hl with rfl | hl
    · exact Nat.le_refl _
    · exact hle l hl
  · rw [List.getLast?_cons, h.outermost]
    rfl

/-- Some blocks are closed, from the innermost one on. -/
theorem of_suffix (h : Ordered ls depth) (hs : l :: ls' <:+ ls) (hl : l ≤ depth') : Ordered (l :: ls') depth' := by
  have hsorted := h.sorted.sublist hs.sublist
  refine ⟨fun m hm => ?_, hsorted, ?_⟩
  · rcases List.mem_cons.1 hm with rfl | hm
    · exact hl
    · exact Nat.le_trans (List.rel_of_pairwise_cons hsorted hm) hl
  · obtain ⟨closed, rfl⟩ := hs
    have := h.outermost
    rwa [List.getLast?_append_of_ne_nil _ (List.cons_ne_nil _ _)] at this

end Ordered

/-- The blocks of a frame are closed, but never the outermost block. -/
theorem closeFrame_suffix (frame : Nat) (inner : Scope) (outer : List Scope) :
    (closeFrame frame inner outer).1 :: (closeFrame frame inner outer).2 <:+ inner :: outer ∧
      ((closeFrame frame inner outer).2 = [] ∨ (closeFrame frame inner outer).1.frame ≠ frame) := by
  induction outer generalizing inner with
  | nil => exact ⟨List.suffix_refl _, .inl rfl⟩
  | cons next rest ih =>
    rw [closeFrame]
    split
    · exact ⟨(ih next).1.trans (List.suffix_cons _ _), (ih next).2⟩
    · next h => exact ⟨List.suffix_refl _, .inr (by simpa using h)⟩

theorem ordered_endScope {c : ScopeChain} (h : Ordered c.levels c.functionDepth) :
    Ordered c.endScope.levels c.endScope.functionDepth := by
  obtain ⟨inner, outer, frame, frames⟩ := c
  cases outer with
  | nil => exact h
  | cons next rest =>
    exact h.of_suffix (List.suffix_cons _ _) (h.below _ (List.mem_cons_of_mem _ List.mem_cons_self))

/-- Behind a function, its blocks are closed. -/
theorem ordered_endFunction {c : ScopeChain} (h : Ordered c.levels c.functionDepth) :
    Ordered c.endFunction.2.levels c.endFunction.2.functionDepth := by
  obtain ⟨hsuffix, hend⟩ := closeFrame_suffix c.functionDepth c.inner c.outer
  have hlevels := hsuffix.map (·.frame)
  have hlow : (closeFrame c.functionDepth c.inner c.outer).1.frame ≤ c.functionDepth - 1 := by
    have hclosed := h.of_suffix hlevels (h.below _ (hlevels.subset List.mem_cons_self))
    rcases hend with hlast | hne
    · have hzero := hclosed.outermost
      rw [hlast] at hzero
      rw [show (closeFrame c.functionDepth c.inner c.outer).1.frame = 0 from Option.some.inj hzero]
      exact Nat.zero_le _
    · have hle : (closeFrame c.functionDepth c.inner c.outer).1.frame ≤ c.functionDepth :=
        hclosed.below _ List.mem_cons_self
      omega
  have hclosed := h.of_suffix hlevels hlow
  obtain ⟨inner, outer, frame, frames⟩ := c
  cases frames with
  | nil => exact hclosed
  | cons next rest => exact hclosed

/-- What holds of a ledger after any operations. -/
structure Ledger.Regular (a : Ledger) : Prop where
  ordered : Ordered a.chain.levels a.chain.functionDepth
  frames : List.Forall₂ FrameKept (a.chain.frame :: a.chain.frames) (a.declared :: a.outer)

namespace Ledger.Regular

variable {a : Ledger}

theorem empty : Regular .empty :=
  ⟨⟨by simp [Ledger.empty, ScopeChain.empty, levels, scopes], List.pairwise_singleton _ _, rfl⟩, .cons .empty .nil⟩

/-- What a declaration that is accepted leaves. -/
theorem declare (h : a.Regular) {n : Naming} {e : Entity} {c : ScopeChain}
    (hn : n.declareIn a.chain = (.ok e, c)) : Regular ⟨c, a.declared ++ [(n, e)], a.outer⟩ := by
  obtain ⟨hframe, hframes⟩ := List.forall₂_cons.1 h.frames
  cases n with
  | var name constant type =>
    obtain ⟨htaken, rfl, rfl⟩ := declareLocal_eq_ok hn
    have hnew : name ∉ a.chain.frame := fun hmem => by simp [isTaken, hmem] at htaken
    exact ⟨h.ordered, .cons (hframe.addVar rfl hnew rfl) hframes⟩
  | param name index count type =>
    obtain ⟨-, rfl, rfl⟩ := declareParam_eq_ok hn
    refine ⟨h.ordered, .cons (hframe.addOther ((locals_append _).trans (List.append_nil _)) fun p hp => ?_) hframes⟩
    obtain rfl := List.mem_singleton.1 hp
    rfl
  | function name entry signature =>
    obtain ⟨-, rfl, rfl⟩ := declareFunction_eq_ok hn
    refine ⟨h.ordered, .cons (hframe.addOther ((locals_append _).trans (List.append_nil _)) fun p hp => ?_) hframes⟩
    exact absurd hp List.not_mem_nil

/-- Every operation keeps a ledger regular. -/
theorem perform (h : a.Regular) (op : Operation) : (a.perform op).Regular := by
  cases op with
  | beginScope => exact ⟨h.ordered.cons (Nat.le_refl _), h.frames⟩
  | endScope =>
    refine ⟨ordered_endScope h.ordered, ?_⟩
    obtain ⟨⟨inner, outer, frame, frames⟩, declared, around⟩ := a
    cases outer with
    | nil => exact h.frames
    | cons next rest => exact h.frames
  | beginFunction => exact ⟨h.ordered.cons (Nat.le_succ _), .cons .empty h.frames⟩
  | endFunction =>
    have hordered := ordered_endFunction h.ordered
    obtain ⟨⟨inner, outer, frame, frames⟩, declared, around⟩ := a
    obtain ⟨hframe, hframes⟩ := List.forall₂_cons.1 h.frames
    cases hframes with
    | nil => exact ⟨hordered, .cons hframe .nil⟩
    | cons hnext hrest => exact ⟨hordered, .cons hnext hrest⟩
  | declare n =>
    rw [Ledger.perform]
    split
    · next hn => exact h.declare hn
    · next hn => exact Naming.declareIn_eq_error hn ▸ h

theorem run (h : a.Regular) (ops : List Operation) : (a.run ops).Regular := by
  induction ops generalizing a with
  | nil => exact h
  | cons op ops ih => exact ih (h.perform op)

end Ledger.Regular

/-! ### Blocks and functions that are closed again -/

/-- A later ledger of the same block: only the block and the frame in use have got more. -/
structure Ledger.Grows (a b : Ledger) : Prop where
  chain : a.chain.Grows b.chain
  outer : b.outer = a.outer
  declared : ∃ new, b.declared = a.declared ++ new

namespace Ledger

variable {a b c : Ledger}

theorem Grows.refl (a : Ledger) : a.Grows a := ⟨.refl _, rfl, [], (List.append_nil _).symm⟩

theorem Grows.trans (h : a.Grows b) (h' : b.Grows c) : a.Grows c := by
  obtain ⟨new, hnew⟩ := h.declared
  obtain ⟨new', hnew'⟩ := h'.declared
  exact ⟨h.chain.trans h'.chain, h'.outer.trans h.outer, new ++ new', by rw [hnew', hnew, List.append_assoc]⟩

/-- A declaration adds to the innermost block of the function. -/
theorem grows_declare (hlevel : a.chain.inner.frame = a.chain.functionDepth) (n : Naming) :
    a.Grows (a.perform (.declare n)) := by
  rw [perform]
  split
  · next e c hn =>
    refine ⟨?_, rfl, _, rfl⟩
    cases n with
    | var => exact grows_declareLocal hlevel hn
    | param =>
      obtain ⟨hnew, rfl, rfl⟩ := declareParam_eq_ok hn
      exact grows_add hnew
    | function =>
      obtain ⟨hnew, rfl, rfl⟩ := declareFunction_eq_ok hn
      exact grows_add hnew
  · next hn => exact Naming.declareIn_eq_error hn ▸ .refl a

/-- Behind a block, all that is left of it are the names that its variables have taken in the frame. -/
theorem Grows.closeBlock (h : (a.perform .beginScope).Grows b) : a.Grows (b.perform .endScope) :=
  ⟨grows_endScope h.chain, h.outer, h.declared⟩

/-- Behind a function, everything is as it was. -/
theorem Grows.closeFunction (hlevel : a.chain.inner.frame ≤ a.chain.functionDepth)
    (h : (a.perform .beginFunction).Grows b) : b.perform .endFunction = a := by
  have hchain := endFunction_of_grows hlevel h.chain
  rw [perform, show b.outer = a.declared :: a.outer from h.outer]
  dsimp only
  rw [hchain]

/-- Operations that close all that they open add to the block and the frame in use. -/
theorem run_nested {ops : List Operation} (hops : Nested ops)
    (hlevel : a.chain.inner.frame = a.chain.functionDepth) : a.Grows (a.run ops) := by
  induction hops generalizing a with
  | nil => exact .refl a
  | declare n _ ih =>
    have hfirst := grows_declare hlevel n
    exact hfirst.trans (ih (by rw [hfirst.chain.level, hfirst.chain.functionDepth, hlevel]))
  | block _ _ ihinside ihrest =>
    rw [run_cons, run_append, run_cons]
    have hfirst := (ihinside (a := a.perform .beginScope) rfl).closeBlock
    exact hfirst.trans (ihrest (by rw [hfirst.chain.level, hfirst.chain.functionDepth, hlevel]))
  | function _ _ ihinside ihrest =>
    rw [run_cons, run_append, run_cons,
      (ihinside (a := a.perform .beginFunction) rfl).closeFunction (Nat.le_of_eq hlevel)]
    exact ihrest hlevel

end Ledger

/-- What is left of a block: the names of its variables in the frame. -/
structure LeftByBlock (a b : Ledger) : Prop where
  frame : ∃ new, b.declared = a.declared ++ new ∧
    b.chain.frame.toList = a.chain.frame.toList ++ (locals new).map (·.name)
  scopes : b.chain.scopes = a.chain.scopes
  frames : b.chain.frames = a.chain.frames
  resolve : ∀ environment name, b.chain.resolve environment name = a.chain.resolve environment name

/-- What is left of a function: nothing.  The names of its variables are what closing it answers. -/
structure LeftByFunction (a b : Ledger) : Prop where
  chain : b.chain.endFunction = (((locals b.declared).map (·.name)).toArray, a.chain)
  outer : b.outer = a.declared :: a.outer

theorem Ledger.Regular.leftByBlock {a : Ledger} (h : a.Regular) {inside : List Operation} (hinside : Nested inside) :
    LeftByBlock a (a.run (.beginScope :: (inside ++ [.endScope]))) := by
  have hkept := (List.forall₂_cons.1 h.frames).1
  have hkept' := (List.forall₂_cons.1 (h.run (.beginScope :: (inside ++ [.endScope]))).frames).1
  have hgrows := Ledger.run_nested (a := a.perform .beginScope) hinside rfl
  obtain ⟨new, hnew⟩ := hgrows.declared
  have hclosed := endScope_of_grows hgrows.chain
  rw [Ledger.run_cons, Ledger.run_append, Ledger.run_cons, Ledger.run_nil] at hkept' ⊢
  generalize (a.perform .beginScope).run inside = b at hnew hclosed hkept'
  have hchain : (b.perform .endScope).chain = { a.chain with frame := b.chain.frame } := hclosed
  have hdeclared : (b.perform .endScope).declared = a.declared ++ new := hnew
  have hscopes : (b.perform .endScope).chain.scopes = a.chain.scopes := by rw [hchain]; rfl
  refine ⟨⟨new, hdeclared, ?_⟩, hscopes, by rw [hchain], fun environment name => ?_⟩
  · rw [hkept'.listed, hkept.listed, hdeclared, locals_append, List.map_append]
  · rw [resolve, hscopes, resolve]

theorem Ledger.Regular.leftByFunction {a : Ledger} (h : a.Regular) {inside : List Operation} (hinside : Nested inside) :
    LeftByFunction a (a.run (.beginFunction :: inside)) := by
  have hgrows := Ledger.run_nested (a := a.perform .beginFunction) hinside rfl
  have hkept := (List.forall₂_cons.1 (h.run (.beginFunction :: inside)).frames).1
  have hchain := endFunction_of_grows (h.ordered.below _ List.mem_cons_self) hgrows.chain
  rw [Ledger.run_cons] at hkept ⊢
  generalize (a.perform .beginFunction).run inside = b at hgrows hkept hchain
  refine ⟨?_, hgrows.outer⟩
  have hnames : b.chain.endFunction.1 = b.chain.frame := by
    have hframes : b.chain.frames = a.chain.frame :: a.chain.frames := hgrows.chain.frames
    rw [endFunction, hframes]
  rw [← hkept.listed, Array.toArray_toList, ← hnames, ← hchain]

/-- After any operations, the names of each open frame are those of the variables declared in it, all
different, each at its slot, and the parameters of one list lie in other slots.  A declaration that is
refused changes nothing.  Behind a block, every name stands for what it stood for before the block, and
behind a function everything is as it was. -/
theorem frames_kept (before : List Operation) :
    let a := Ledger.empty.run before
    a.chain = before.foldl perform .empty ∧
    List.Forall₂ (fun names ds => names.toList.Nodup ∧ names.toList = (locals ds).map (·.name) ∧
        (∀ (i : Nat) e, (locals ds)[i]? = some e → e.location = .slot i ∧ names[i]? = some e.name) ∧
        (OneList (params ds) → ((locals ds).map (·.location) ++ (params ds).map (·.2.location)).Nodup))
      (a.chain.frame :: a.chain.frames) (a.declared :: a.outer) ∧
    (∀ n e, (n.declareIn a.chain).1 = .error e → a.chain.perform (.declare n) = a.chain) ∧
    (∀ inside, Nested inside → LeftByBlock a (a.run (.beginScope :: (inside ++ [.endScope])))) ∧
    ∀ inside, Nested inside → LeftByFunction a (a.run (.beginFunction :: inside)) := by
  have hregular := Ledger.Regular.empty.run before
  refine ⟨Ledger.chain_run before, hregular.frames.imp fun names ds h => ?_, fun n e hn => ?_,
    fun _ => hregular.leftByBlock, fun _ => hregular.leftByFunction⟩
  · exact ⟨h.distinct, h.listed, fun i e he => ⟨h.slots i e he, h.name_at he⟩, h.apart⟩
  · exact Naming.declareIn_eq_error (Prod.ext hn rfl)

/-- A function of two parameters, behind a block with a variable of its own. -/
def blockInFunction : List Operation :=
  [.declare (.var "x" false .int), .beginFunction, .declare (.param "a" 0 2 .int), .declare (.param "b" 1 2 .any),
    .beginScope, .declare (.var "i" false .int), .endScope]

/-- A block that may not use the name of the closed block again, with a function in it that may. -/
def blockBehind : List Operation :=
  [.declare (.var "i" false .int), .declare (.var "j" true .int), .beginFunction, .declare (.var "i" false .any),
    .endFunction]

/-- The frame keeps the names of both blocks, each once. -/
theorem blockBehind_left :
    Nested blockBehind ∧
      LeftByBlock (Ledger.empty.run blockInFunction)
        ((Ledger.empty.run blockInFunction).run (.beginScope :: (blockBehind ++ [.endScope]))) ∧
      ((Ledger.empty.run blockInFunction).run (.beginScope :: (blockBehind ++ [.endScope]))).chain.frame =
        #["i", "j"] := by
  have hnested : Nested blockBehind := .declare _ (.declare _ (.function (.declare _ .nil) .nil))
  obtain ⟨-, -, -, hblock, -⟩ := frames_kept blockInFunction
  exact ⟨hnested, hblock blockBehind hnested, by decide +kernel⟩

end StackScript.Assembly.ScopeChain
