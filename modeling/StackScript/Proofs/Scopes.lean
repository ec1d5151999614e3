import Mathlib.Tactic.Common
import StackScript.Assembly.Scope
import StackScript.Proofs.Lexical

/-!
# Scope chains while code is written

* `Grows`: what declarations do to a chain.  The innermost block and the frame get new names, all
  names that were there stay, and nothing else changes.  Closing a block or a function that was
  opened before such changes gives back what was there when it was opened.
* `Sound`: every variable lies where the chain says, either in a frame under its own name or, as a
  parameter, below the frame of the function.
* `context`: what a chain says of names, without their types.  Declarations change it as the tree does.
-/

namespace StackScript.Assembly

open Typing Bytecode Host Syntax

theorem Scope.mem_of_find? {s : Scope} {name : String} {e : Entity} (h : s.find? name = some e) :
    e ∈ s.entities ∧ e.name = name :=
  ⟨List.mem_of_find?_eq_some h, by simpa using List.find?_some h⟩

/-- A new name in front hides no name that was not declared. -/
theorem Scope.find?_cons {s : Scope} {e : Entity} {name : String} {f : Entity}
    (hnew : s.declares e.name = false) (h : s.find? name = some f) :
    Scope.find? { s with entities := e :: s.entities } name = some f := by
  have hne : (e.name == name) = false := by
    by_contra hc
    rw [Bool.not_eq_false, beq_iff_eq] at hc
    rw [Scope.declares, hc, h] at hnew
    exact absurd hnew (by simp)
  simpa [Scope.find?, hne] using h

namespace ScopeChain

def entities (c : ScopeChain) : List Entity := c.scopes.flatMap (·.entities)

/-- The frame with the given number of functions around it. -/
def frameOf (c : ScopeChain) (level : Nat) : Array String :=
  (c.frame :: c.frames)[c.functionDepth - level]?.getD #[]

def topFrame (c : ScopeChain) : Array String := c.frameOf 0

theorem frameOf_depth (c : ScopeChain) : c.frameOf c.functionDepth = c.frame := by
  simp [frameOf]

theorem topFrame_of_top {c : ScopeChain} (h : c.functionDepth = 0) : c.topFrame = c.frame := by
  rw [topFrame, ← h, frameOf_depth]

/-- In a function, the frame of the top level does not change. -/
theorem topFrame_of_inside {c c' : ScopeChain} (h : c.functionDepth ≠ 0)
    (hf : c'.frames = c.frames) : c'.topFrame = c.topFrame := by
  obtain ⟨n, hn⟩ := Nat.exists_eq_succ_of_ne_zero h
  have hn' : c.frames.length = n + 1 := hn
  simp only [topFrame, frameOf, functionDepth, hf, hn', Nat.sub_zero, List.getElem?_cons_succ]

theorem topFrame_beginFunction (c : ScopeChain) : c.beginFunction.topFrame = c.topFrame := by
  simp only [topFrame, frameOf, functionDepth, beginFunction, Nat.sub_zero, List.length_cons,
    List.getElem?_cons_succ]

/-! ### Declarations -/

/-- What declarations change. -/
structure Grows (c c' : ScopeChain) : Prop where
  outer : c'.outer = c.outer
  frames : c'.frames = c.frames
  level : c'.inner.frame = c.inner.frame
  entities : ∀ e ∈ c.inner.entities, e ∈ c'.inner.entities
  found : ∀ (name : String) (e : Entity), c.inner.find? name = some e → c'.inner.find? name = some e
  frame : ∀ (i : Nat) (name : String), c.frame[i]? = some name → c'.frame[i]? = some name

namespace Grows

theorem refl (c : ScopeChain) : Grows c c :=
  ⟨rfl, rfl, rfl, fun _ h => h, fun _ _ h => h, fun _ _ h => h⟩

theorem trans {c c' c'' : ScopeChain} (h : Grows c c') (h' : Grows c' c'') : Grows c c'' where
  outer := h'.outer.trans h.outer
  frames := h'.frames.trans h.frames
  level := h'.level.trans h.level
  entities e he := h'.entities e (h.entities e he)
  found name e he := h'.found name e (h.found name e he)
  frame i name hi := h'.frame i name (h.frame i name hi)

variable {c c' : ScopeChain}

theorem functionDepth (h : Grows c c') : c'.functionDepth = c.functionDepth := by
  rw [ScopeChain.functionDepth, ScopeChain.functionDepth, h.frames]

theorem mem_entities (h : Grows c c') {e : Entity} (he : e ∈ c.entities) : e ∈ c'.entities := by
  simp only [ScopeChain.entities, scopes, List.flatMap_cons, List.mem_append, h.outer] at he ⊢
  exact he.imp (h.entities e) id

end Grows

theorem isTaken_false {c : ScopeChain} {name : String} (hl : c.inner.frame = c.functionDepth)
    (h : c.isTaken name = false) : c.inner.declares name = false ∧ name ∉ c.frame := by
  simp only [isTaken, scopes, Bool.or_eq_false_iff] at h
  refine ⟨?_, by simpa using h.2⟩
  have := h.1
  rw [List.takeWhile_cons_of_pos (by simpa using hl), List.any_cons, Bool.or_eq_false_iff] at this
  exact this.1

/-- What an accepted declaration of a variable adds. -/
theorem declareLocal_eq_ok {c c' : ScopeChain} {name : String} {k : Bool} {t : Ty} {e : Entity}
    (h : c.declareLocal name k t = (.ok e, c')) :
    c.isTaken name = false ∧
      e = { name, type := t, kind := if k then .constant else .var, location := .slot c.frame.size
            frame := c.functionDepth, constant := k, signature := none } ∧
      c' = { c with frame := c.frame.push name }.add e := by
  unfold declareLocal at h
  split at h
  · exact absurd h (by simp)
  · next ht =>
    simp only [Except.ok.injEq, Prod.mk.injEq] at h
    exact ⟨by simpa using ht, h.1.symm, by rw [← h.2, h.1]⟩

theorem declareParam_eq_ok {c c' : ScopeChain} {name : String} {i n : Nat} {t : Ty} {e : Entity}
    (h : c.declareParam name i n t = (.ok e, c')) :
    c.inner.declares name = false ∧
      e = { name, type := t, kind := .var, location := .slot (Int.ofNat i - Int.ofNat n - 2)
            frame := c.functionDepth, constant := false, signature := none } ∧ c' = c.add e := by
  unfold declareParam at h
  split at h
  · exact absurd h (by simp)
  · next ht =>
    simp only [Except.ok.injEq, Prod.mk.injEq] at h
    exact ⟨by simpa using ht, h.1.symm, by rw [← h.2, h.1]⟩

theorem declareFunction_eq_ok {c c' : ScopeChain} {name : String} {l : Label} {s : Signature}
    {e : Entity} (h : c.declareFunction name l s = (.ok e, c')) :
    c.inner.declares name = false ∧
      e = { name, type := .function, kind := .function, location := .entry l
            frame := c.functionDepth, constant := true, signature := some s } ∧ c' = c.add e := by
  unfold declareFunction at h
  split at h
  · exact absurd h (by simp)
  · next ht =>
    simp only [Except.ok.injEq, Prod.mk.injEq] at h
    exact ⟨by simpa using ht, h.1.symm, by rw [← h.2, h.1]⟩

/-- A variable that is refused leaves no trace. -/
theorem declareLocal_eq_error {c c' : ScopeChain} {name : String} {k : Bool} {t : Ty} {x : CompileError}
    (h : c.declareLocal name k t = (.error x, c')) : c' = c := by
  unfold declareLocal at h
  split at h <;> cases h
  rfl

theorem declareParam_eq_error {c c' : ScopeChain} {name : String} {i n : Nat} {t : Ty} {x : CompileError}
    (h : c.declareParam name i n t = (.error x, c')) : c' = c := by
  unfold declareParam at h
  split at h <;> cases h
  rfl

theorem declareFunction_eq_error {c c' : ScopeChain} {name : String} {l : Label} {s : Signature}
    {x : CompileError} (h : c.declareFunction name l s = (.error x, c')) : c' = c := by
  unfold declareFunction at h
  split at h <;> cases h
  rfl

theorem grows_add {c : ScopeChain} {e : Entity} (h : c.inner.declares e.name = false) :
    Grows c (c.add e) where
  outer := rfl
  frames := rfl
  level := rfl
  entities _ hf := List.mem_cons_of_mem _ hf
  found _ _ hf := Scope.find?_cons h hf
  frame _ _ hi := hi

theorem grows_declareLocal {c c' : ScopeChain} {name : String} {k : Bool} {t : Ty} {e : Entity}
    (hl : c.inner.frame = c.functionDepth) (h : c.declareLocal name k t = (.ok e, c')) :
    Grows c c' := by
  obtain ⟨ht, rfl, rfl⟩ := declareLocal_eq_ok h
  refine @Grows.trans _ { c with frame := c.frame.push name } _ ?_
    (grows_add (isTaken_false hl ht).1)
  refine ⟨rfl, rfl, rfl, fun _ h => h, fun _ _ h => h, fun i n hi => ?_⟩
  have hlt := (Array.getElem?_eq_some_iff.1 hi).1
  rw [Array.getElem?_push, if_neg (by omega), hi]

/-! ### Blocks and functions -/

/-- Closing a block leaves only the names that its variables have taken in the frame. -/
theorem endScope_of_grows {c c' : ScopeChain} (h : Grows c.beginScope c') :
    c'.endScope = { c with frame := c'.frame } := by
  have ho := h.outer
  have hf := h.frames
  simp only [beginScope, scopes] at ho hf
  simp [endScope, ho, hf]

theorem grows_endScope {c c' : ScopeChain} (h : Grows c.beginScope c') : Grows c c'.endScope := by
  rw [endScope_of_grows h]
  exact ⟨rfl, rfl, rfl, fun _ h => h, fun _ _ h => h, h.frame⟩

/-- Closing a function gives back the chain in which it was opened. -/
theorem endFunction_of_grows {c c' : ScopeChain} (hl : c.inner.frame ≤ c.functionDepth)
    (h : Grows c.beginFunction c') : c'.endFunction.2 = c := by
  obtain ⟨⟨entities, level⟩, outer, frame, frames⟩ := c'
  obtain ⟨rfl, rfl, rfl, -, -, -⟩ := h
  have hne : (c.inner.frame == c.functionDepth + 1) = false := by
    rw [beq_eq_false_iff_ne]
    omega
  have hd : (⟨⟨entities, c.beginFunction.inner.frame⟩, c.beginFunction.outer, frame,
      c.beginFunction.frames⟩ : ScopeChain).functionDepth = c.functionDepth + 1 := rfl
  unfold endFunction
  rw [hd]
  simp only [beginFunction, scopes, closeFrame, beq_self_eq_true, if_true]
  cases ho : c.outer with
  | nil => simp [closeFrame, ← ho]
  | cons next rest => simp [closeFrame, hne, ← ho]

/-! ### Where variables lie -/

/-- A variable is found at a place counted from the frame in use, or from that of the top level:
in the frame under its own name, or below the frame as one of the function's parameters. -/
inductive Placed (c : ScopeChain) (params : Nat) (name : String) : Area → Int → Prop
  | frame {i : Nat} (h : c.frame[i]? = some name) : Placed c params name .own i
  | param {i : Nat} (h : i < params) : Placed c params name .own (Int.ofNat i - Int.ofNat params - 2)
  | top {i : Nat} (hd : c.functionDepth ≠ 0) (h : c.topFrame[i]? = some name) :
    Placed c params name .top i

/-- Where an entity lies. -/
def Lies (c : ScopeChain) (params : Nat) (e : Entity) : Prop :=
  match e.location with
  | .slot i =>
    (∃ k : Nat, i = k ∧ (c.frameOf e.frame)[k]? = some e.name) ∨
      (e.frame ≠ 0 ∧
        (e.frame = c.functionDepth → ∃ k < params, i = Int.ofNat k - Int.ofNat params - 2))
  | .entry _ => e.signature.isSome
  | .external => False

/-- Every entity lies where the chain says; `params` is the number of parameters of the function in
use. -/
structure Sound (params : Nat) (c : ScopeChain) : Prop where
  level : c.inner.frame = c.functionDepth
  levels : ∀ s ∈ c.scopes, s.frame ≤ c.functionDepth
  depth : ∀ e ∈ c.entities, e.frame ≤ c.functionDepth
  lies : ∀ e ∈ c.entities, c.Lies params e

namespace Sound

variable {params : Nat} {c c' : ScopeChain}

theorem empty : Sound 0 .empty :=
  ⟨rfl, by simp [ScopeChain.empty, scopes, functionDepth], by simp [ScopeChain.empty, entities, scopes],
    by simp [ScopeChain.empty, entities, scopes]⟩

/-- A name that is not the host's is declared in an open block. -/
theorem mem_of_resolve {env : Environment} {name : String} {e : Entity}
    (h : c.resolve env name = .ok e) (he : e.location ≠ .external) :
    e ∈ c.entities ∧ e.name = name := by
  unfold resolve at h
  split at h
  · next f hf =>
    obtain rfl := Except.ok.inj h
    obtain ⟨s, hs, hsf⟩ := List.exists_of_findSome?_eq_some hf
    exact ⟨List.mem_flatMap.2 ⟨s, hs, (Scope.mem_of_find? hsf).1⟩, (Scope.mem_of_find? hsf).2⟩
  · split at h
    · obtain rfl := Except.ok.inj h
      exact absurd rfl he
    · exact absurd h (by simp)

theorem placed_own {env : Environment} {name : String} {e : Entity} {i : Int} (hc : Sound params c)
    (h : c.resolve env name = .ok e) (hi : e.location = .slot i) (hf : e.frame = c.functionDepth) :
    c.Placed params name .own i := by
  obtain ⟨hm, rfl⟩ := mem_of_resolve h (by simp [hi])
  have hl := hc.lies e hm
  rw [Lies, hi] at hl
  rcases hl with ⟨k, rfl, hk⟩ | ⟨-, hp⟩
  · rw [hf, frameOf_depth] at hk
    exact .frame hk
  · obtain ⟨k, hk, rfl⟩ := hp hf
    exact .param hk

theorem placed_top {env : Environment} {name : String} {e : Entity} {i : Int} (hc : Sound params c)
    (h : c.resolve env name = .ok e) (hi : e.location = .slot i) (hd : e.frame ≠ c.functionDepth)
    (hf : e.frame = 0) : c.Placed params name .top i := by
  obtain ⟨hm, rfl⟩ := mem_of_resolve h (by simp [hi])
  have hl := hc.lies e hm
  rw [Lies, hi] at hl
  rcases hl with ⟨k, rfl, hk⟩ | ⟨h0, -⟩
  · rw [hf] at hk
    exact .top (fun h => hd (hf.trans h.symm)) hk
  · exact absurd hf h0

theorem add {e : Entity} (hc : Sound params c) (hd : e.frame ≤ c.functionDepth)
    (hl : c.Lies params e) : Sound params (c.add e) := by
  have hmem : ∀ f ∈ (c.add e).entities, f = e ∨ f ∈ c.entities := by
    intro f hf
    simpa [ScopeChain.add, entities, scopes, or_assoc] using hf
  refine ⟨hc.level, fun s hs => ?_, fun f hf => ?_, fun f hf => ?_⟩
  · rcases List.mem_cons.1 hs with rfl | hs
    · exact Nat.le_of_eq hc.level
    · exact hc.levels s (List.mem_cons_of_mem _ hs)
  · rcases hmem f hf with rfl | hf
    · exact hd
    · exact hc.depth f hf
  · rcases hmem f hf with rfl | hf
    · exact hl
    · exact hc.lies f hf

/-- A longer frame holds what the shorter one held. -/
theorem frame_grows {frame : Array String} (hc : Sound params c)
    (h : ∀ (i : Nat) (n : String), c.frame[i]? = some n → frame[i]? = some n) : Sound params { c with frame } := by
  refine ⟨hc.level, hc.levels, hc.depth, fun e he => ?_⟩
  have hl := hc.lies e he
  unfold Lies at hl ⊢
  split at hl
  · refine hl.imp (fun ⟨k, hik, hk⟩ => ⟨k, hik, ?_⟩) id
    simp only [frameOf, functionDepth] at hk ⊢
    cases hn : c.frames.length - e.frame with
    | zero =>
      rw [hn] at hk
      exact h _ _ hk
    | succ n =>
      rw [hn] at hk
      exact hk
  · exact hl
  · exact hl

theorem declareLocal {name : String} {k : Bool} {t : Ty} {e : Entity} (hc : Sound params c)
    (h : c.declareLocal name k t = (.ok e, c')) : Sound params c' := by
  obtain ⟨-, rfl, rfl⟩ := declareLocal_eq_ok h
  refine add (frame_grows hc fun i n hi => ?_) (Nat.le_refl _) ?_
  · have hlt := (Array.getElem?_eq_some_iff.1 hi).1
    rw [Array.getElem?_push, if_neg (by omega), hi]
  · left
    refine ⟨c.frame.size, rfl, ?_⟩
    show (frameOf { c with frame := c.frame.push name } c.functionDepth)[c.frame.size]? = some name
    simp [frameOf, functionDepth]

theorem declareParam {name : String} {i n : Nat} {t : Ty} {e : Entity} (hc : Sound n c)
    (hd : c.functionDepth ≠ 0) (hi : i < n) (h : c.declareParam name i n t = (.ok e, c')) :
    Sound n c' := by
  obtain ⟨-, rfl, rfl⟩ := declareParam_eq_ok h
  exact add hc (Nat.le_refl _) (Or.inr ⟨hd, fun _ => ⟨i, hi, rfl⟩⟩)

theorem declareFunction {name : String} {l : Label} {s : Signature} {e : Entity}
    (hc : Sound params c) (h : c.declareFunction name l s = (.ok e, c')) : Sound params c' := by
  obtain ⟨-, rfl, rfl⟩ := declareFunction_eq_ok h
  exact add hc (Nat.le_refl _) rfl

theorem beginScope (hc : Sound params c) : Sound params c.beginScope := by
  have he : c.beginScope.entities = c.entities := by simp [ScopeChain.beginScope, entities, scopes]
  refine ⟨rfl, fun s hs => ?_, fun e h => hc.depth e (he ▸ h), fun e h => hc.lies e (he ▸ h)⟩
  rcases List.mem_cons.1 hs with rfl | hs
  · exact Nat.le_refl _
  · exact hc.levels s hs

theorem beginFunction (hc : Sound params c) (n : Nat) : Sound n c.beginFunction := by
  have he : c.beginFunction.entities = c.entities := by
    simp [ScopeChain.beginFunction, entities, scopes]
  have hd : c.beginFunction.functionDepth = c.functionDepth + 1 := rfl
  refine ⟨rfl, fun s hs => ?_, fun e h => ?_, fun e h => ?_⟩
  · rcases List.mem_cons.1 hs with rfl | hs
    · exact Nat.le_refl _
    · exact Nat.le_succ_of_le (hc.levels s hs)
  · exact Nat.le_succ_of_le (hc.depth e (he ▸ h))
  · have hl := hc.lies e (he ▸ h)
    have hle := hc.depth e (he ▸ h)
    unfold Lies at hl ⊢
    split at hl
    · refine hl.imp (fun ⟨k, hik, hk⟩ => ⟨k, hik, ?_⟩) fun ⟨h0, _⟩ => ⟨h0, fun h => by omega⟩
      simp only [frameOf, hd, Nat.succ_sub hle] at hk ⊢
      exact hk
    · exact hl
    · exact hl

end Sound

end ScopeChain

/-! ### What a chain says of names -/

def Entity.referent (e : Entity) : Referent :=
  match e.location with
  | .slot i => .cell ⟨e.name, e.constant, e.frame, i⟩
  | _ => .function

def Scope.referents (s : Scope) : List (String × Referent) :=
  s.entities.map fun e => (e.name, e.referent)

theorem Scope.lookup_referents (s : Scope) (name : String) :
    s.referents.lookup name = (s.find? name).map Entity.referent := by
  obtain ⟨entities, frame⟩ := s
  simp only [Scope.referents, Scope.find?]
  induction entities with
  | nil => rfl
  | cons e rest ih =>
    rw [List.map_cons, List.lookup_cons, List.find?_cons, BEq.comm]
    cases e.name == name with
    | true => rfl
    | false => exact ih

namespace ScopeChain

def context (c : ScopeChain) : Context :=
  ⟨c.inner.referents, c.outer.map Scope.referents, c.functionDepth, c.frame.size⟩

variable {c c' : ScopeChain}

theorem context_find? (c : ScopeChain) (name : String) :
    c.context.find? name = (c.scopes.findSome? fun s => s.find? name).map Entity.referent := by
  have hmap (scopes : List Scope) :
      ((scopes.map Scope.referents).findSome? fun block => block.lookup name) =
        (scopes.findSome? fun s => s.find? name).map Entity.referent := by
    induction scopes with
    | nil => rfl
    | cons s rest ih =>
      rw [List.map_cons, List.findSome?_cons, List.findSome?_cons, s.lookup_referents]
      cases s.find? name with
      | none => exact ih
      | some e => rfl
  exact hmap c.scopes

/-- A name that has a slot stands for the variable there. -/
theorem variableOf_slot {env : Environment} {name : String} {e : Entity} {i : Int}
    (h : c.resolve env name = .ok e) (hi : e.location = .slot i) :
    c.context.variableOf name = some ⟨name, e.constant, e.frame, i⟩ := by
  have hname := (Sound.mem_of_resolve h (by rw [hi]; nofun)).2
  rw [Context.variableOf, context_find?]
  unfold resolve at h
  split at h
  · next f hf =>
    obtain rfl := Except.ok.inj h
    simp only [hf, Option.map_some, Entity.referent, hi, hname]
  · split at h
    · obtain rfl := Except.ok.inj h
      cases hi
    · cases h

/-- All other names stand for no variable. -/
theorem variableOf_other {env : Environment} {name : String} {e : Entity}
    (h : c.resolve env name = .ok e) (hi : ∀ i, e.location ≠ .slot i) :
    c.context.variableOf name = none := by
  rw [Context.variableOf, context_find?]
  unfold resolve at h
  split at h
  · next f hf =>
    obtain rfl := Except.ok.inj h
    have hreferent : f.referent = .function := by
      unfold Entity.referent
      split
      · next i hslot => exact absurd hslot (hi i)
      · rfl
    simp only [hf, Option.map_some, hreferent]
  · next hnone => simp only [hnone, Option.map_none]

theorem context_declareLocal {name : String} {k : Bool} {t : Ty} {e : Entity}
    (h : c.declareLocal name k t = (.ok e, c')) : c'.context = c.context.declare name k := by
  obtain ⟨-, rfl, rfl⟩ := declareLocal_eq_ok h
  simp [context, add, Context.declare, Context.add, Scope.referents, Entity.referent, functionDepth]

theorem context_declareParam {name : String} {i n : Nat} {t : Ty} {e : Entity}
    (h : c.declareParam name i n t = (.ok e, c')) :
    c'.context = c.context.add name (.cell ⟨name, false, c.context.level, (i : Int) - n - 2⟩) := by
  obtain ⟨-, rfl, rfl⟩ := declareParam_eq_ok h
  rfl

theorem context_declareFunction {name : String} {l : Label} {s : Signature} {e : Entity}
    (h : c.declareFunction name l s = (.ok e, c')) : c'.context = c.context.add name .function := by
  obtain ⟨-, rfl, rfl⟩ := declareFunction_eq_ok h
  rfl

theorem isSome_lookup_inner (c : ScopeChain) (name : String) :
    (c.context.inner.lookup name).isSome = c.inner.declares name := by
  show (c.inner.referents.lookup name).isSome = _
  rw [c.inner.lookup_referents, Option.isSome_map]
  rfl

theorem context_beginScope (c : ScopeChain) : c.beginScope.context = c.context.openBlock := rfl

theorem context_endScope (c : ScopeChain) : c.endScope.context = c.context.closeBlock := by
  obtain ⟨inner, outer, frame, frames⟩ := c
  cases outer <;> rfl

theorem context_beginFunction (c : ScopeChain) : c.beginFunction.context =
    ⟨[], c.context.inner :: c.context.outer, c.context.level + 1, 0⟩ := rfl

end ScopeChain

end StackScript.Assembly
