import StackScript.Proofs.TwinStmts

/-!
# Functions that change places

Two functions that stand next to each other in a statement list are written in the other order.  Their
labels are made in the other order, and their bodies go into other buffers; neither body depends on where
the label of the other function leads, which is loose until both are written.

* `Twin.combined`: both functions are written, in one order on the left and in the other on the right.
* `Twin.exchange`: the code of two functions, in both orders.
-/

namespace StackScript.Assembly

open Typing Bytecode Host Syntax Assembly.Write

variable {split : Bool} {T T₁ T₂ : Pairing} {w₁ w₂ v₁ v₂ u₁ u₂ : Writer}

/-- Where a label leads on the left does not matter for now. -/
def Pairing.loosened (T : Pairing) (l : Label) : Pairing := { T with loose := fun m => T.loose m ∨ m = l }

theorem Pairing.grows_loosened (T : Pairing) (l : Label) : T.Grows (T.loosened l) :=
  ⟨fun _ _ h => h, fun _ _ h => h, fun _ _ h => h⟩

/-! ### What is written in new buffers leaves the old ones alone -/

namespace Detached

variable {l : Label} {w v : Writer}

theorem at_eq (h : Detached l w v) {b : Nat} (hb : b < w.buffers.size) (i : Nat) : v.at b i = w.at b i := by
  rw [Writer.at, Writer.at, h.code b hb]

theorem sizeOf_eq (h : Detached l w v) {b : Nat} (hb : b < w.buffers.size) : v.sizeOf b = w.sizeOf b := by
  rw [Writer.sizeOf, Writer.sizeOf, h.code b hb]

theorem offset_eq (h : Detached l w v) {b : Nat} (hb : b < w.buffers.size) (i : Nat) :
    v.offset split b i = w.offset split b i := Writer.offset_congr_at fun k _ => h.at_eq hb k

/-- Places in old buffers stay as they were. -/
theorem point (h : Detached l w₁ v₁) {p q : CodePoint} (hb : p.buffer < w₁.buffers.size)
    (hp : PointTwin split T w₁ p q) : PointTwin split T v₁ p q := by
  refine ⟨hp.buffer, ?_, ?_⟩
  · rw [h.sizeOf_eq hb]
    exact hp.lt
  · rw [h.offset_eq hb]
    exact hp.position

theorem hole (h : Detached l w₁ v₁) {p q : CodePoint} (hb : p.buffer < w₁.buffers.size)
    (hp : HoleTwin split T w₁ p q) : HoleTwin split T v₁ p q := by
  refine ⟨hp.buffer, ?_, ?_⟩
  · rw [h.at_eq hb]
    exact hp.jump
  · rw [h.offset_eq hb]
    exact hp.position

theorem codeLeft (h : Detached l w₁ v₁) {b b' : Nat} (hb : b < w₁.buffers.size) (hc : CodeTwin split T w₁ w₂ b b') :
    CodeTwin split T v₁ w₂ b b' := by
  refine ⟨?_, fun i d hd => ?_⟩
  · rw [h.sizeOf_eq hb, h.offset_eq hb]
    exact hc.size
  · rw [h.at_eq hb] at hd
    rw [h.offset_eq hb]
    exact hc.at_ i d hd

theorem codeRight (h : Detached l w₂ v₂) {b b' : Nat} (hb : b' < w₂.buffers.size) (hc : CodeTwin split T w₁ w₂ b b') :
    CodeTwin split T w₁ v₂ b b' := by
  refine ⟨?_, fun i d hd => ?_⟩
  · rw [h.sizeOf_eq hb]
    exact hc.size
  · exact (hc.at_ i d hd).mono (.refl T) fun k _ _ => h.at_eq hb k

/-- Bodies that were written elsewhere do not disturb a block. -/
theorem trans {l' : Label} (h : Detached l w v) {u : Writer} (h' : Detached l' v u) (hl : w.Names l)
    (hl' : w.Names l') :
    Kin w u := (h.kin hl).trans (h'.kin (by
  unfold Writer.Names
  rw [h.scopes]
  exact hl'))

end Detached

/-! ### One function written on one side only -/

/-- The left side has written a function. -/
theorem Twin.ahead {l : Label} (h : Twin split T w₁ w₂) (hd : Detached l w₁ v₁)
    (hu : ∀ m : Label, v₁.labels.next ≤ m.id → v₁.labels.get? m = none) : Twin split (T.loosened l) v₁ w₂ := by
  have hT := T.grows_loosened l
  have hold : ∀ {b b'}, T.buffers b b' → b < w₁.buffers.size := fun hb => (h.buffer_lt _ _ hb).1
  exact {
    returns := by rw [hd.returns, h.returns]
    scopes := by
      rw [hd.scopes]
      exact h.scopes.mono hT
    level := by rw [hd.scopes, h.level]
    breaks := by
      rw [hd.breaks]
      exact h.breaks
    own := by
      rw [hd.breaks, hd.buffer]
      exact h.own
    buffer := by
      rw [hd.buffer]
      exact h.buffer
    label_lt := fun m m' hm => ⟨Nat.lt_of_lt_of_le (h.label_lt m m' hm).1 hd.next, (h.label_lt m m' hm).2⟩
    label_iff := h.label_iff
    buffer_lt := fun b b' hb => ⟨Nat.lt_of_lt_of_le (hold hb) hd.count, (h.buffer_lt b b' hb).2⟩
    buffer_iff := h.buffer_iff
    unbound := ⟨hu, h.unbound.2⟩
    waiting := by
      rw [hd.waiting]
      exact h.waiting
    bound := fun m m' hm hloose => by
      rw [hd.bound m (h.label_lt m m' hm).1 fun he => hloose (.inr he)]
      exact optionRel_mono (h.bound m m' hm fun hl => hloose (.inl hl)) fun p q hp =>
        (hd.point (hold hp.buffer) hp).mono hT
    code := fun b b' hb => (hd.codeLeft (hold hb) (h.code b b' hb)).mono hT
    holes := fun p q hp => (hd.hole (hold (h.holes p q hp).buffer) (h.holes p q hp)).mono hT }

/-- The right side has written a function. -/
theorem Twin.behind {l l' : Label} (h : Twin split T w₁ w₂) (hl : T.labels l l') (hd : Detached l' w₂ v₂)
    (hu : ∀ m : Label, v₂.labels.next ≤ m.id → v₂.labels.get? m = none) : Twin split (T.loosened l) w₁ v₂ := by
  have hT := T.grows_loosened l
  have hold : ∀ {b b'}, T.buffers b b' → b' < w₂.buffers.size := fun hb => (h.buffer_lt _ _ hb).2
  exact {
    returns := by rw [hd.returns, h.returns]
    scopes := by
      rw [hd.scopes]
      exact h.scopes.mono hT
    level := h.level
    breaks := by
      rw [hd.breaks]
      exact h.breaks
    own := by
      rw [hd.breaks, hd.buffer]
      exact h.own
    buffer := by
      rw [hd.buffer]
      exact h.buffer
    label_lt := fun m m' hm => ⟨(h.label_lt m m' hm).1, Nat.lt_of_lt_of_le (h.label_lt m m' hm).2 hd.next⟩
    label_iff := h.label_iff
    buffer_lt := fun b b' hb => ⟨(h.buffer_lt b b' hb).1, Nat.lt_of_lt_of_le (hold hb) hd.count⟩
    buffer_iff := h.buffer_iff
    unbound := ⟨h.unbound.1, hu⟩
    waiting := by
      rw [hd.waiting]
      exact h.waiting
    bound := fun m m' hm hloose => by
      have hne : m' ≠ l' := fun he => hloose (.inr ((h.label_iff _ _ _ _ hm hl).2 he))
      rw [hd.bound m' (h.label_lt m m' hm).2 hne]
      exact optionRel_mono (h.bound m m' hm fun hl => hloose (.inl hl)) fun _ _ => PointTwin.mono hT
    code := fun b b' hb => (hd.codeRight (hold hb) (h.code b b' hb)).mono hT
    holes := fun p q hp => (h.holes p q hp).mono hT }

/-! ### Both functions written -/

/-- What belongs together once both functions are written. -/
def Pairing.union (T T₁ T₂ : Pairing) : Pairing where
  labels l l' := T₁.labels l l' ∨ T₂.labels l l'
  buffers b b' := T₁.buffers b b' ∨ T₂.buffers b b'
  holes p q := T₁.holes p q ∨ T₂.holes p q
  loose := T.loose

theorem Pairing.grows_left : T₁.Grows (T.union T₁ T₂) := ⟨fun _ _ => .inl, fun _ _ => .inl, fun _ _ => .inl⟩

theorem Pairing.grows_right : T₂.Grows (T.union T₁ T₂) := ⟨fun _ _ => .inr, fun _ _ => .inr, fun _ _ => .inr⟩

/-- The left side has written one function and then another, the right side the other one first. -/
theorem Twin.combined {f f' g g' : Label} (h : Twin split T w₁ w₂) (hfg : f ≠ g) (hf : T.labels f f')
    (hg : T.labels g g') (hfirst : Detached f w₁ v₁) (hsecond : Detached g v₁ u₁) (hfirst' : Detached g' w₂ v₂)
    (hsecond' : Detached f' v₂ u₂) (hpf : Passes split (T.loosened g) T₁ w₁ v₂ v₁ u₂)
    (hpg : Passes split (T.loosened f) T₂ v₁ w₂ u₁ v₂) : Twin split (T.union T₁ T₂) u₁ u₂ := by
  have hT₁ : T₁.Grows (T.union T₁ T₂) := Pairing.grows_left
  have hT₂ : T₂.Grows (T.union T₁ T₂) := Pairing.grows_right
  have hT : T.Grows (T.union T₁ T₂) := (T.grows_loosened g).trans (hpf.grows.trans hT₁)
  -- a pair of labels is old, or new on both sides; the new ones of the two functions are apart
  have hlabel : ∀ l l' m m', T₁.labels l l' → T₂.labels m m' → (l = m ↔ l' = m') := fun l l' m m' hl hm => by
    have hlt := hpf.twin.label_lt l l' hl
    have hlt' := hpg.twin.label_lt m m' hm
    rcases hpf.labels l l' hl with hl₀ | hle
    · exact hpg.twin.label_iff _ _ _ _ (hpg.grows.labels _ _ hl₀) hm
    · rcases hpg.labels m m' hm with hm₀ | hle'
      · exact hpf.twin.label_iff _ _ _ _ hl (hpf.grows.labels _ _ hm₀)
      · refine iff_of_false ?_ ?_ <;> rintro rfl <;> omega
  have hbuffer : ∀ b b' c c', T₁.buffers b b' → T₂.buffers c c' → (b = c ↔ b' = c') := fun b b' c c' hb hc => by
    have hlt := hpf.twin.buffer_lt b b' hb
    have hlt' := hpg.twin.buffer_lt c c' hc
    rcases hpf.buffers b b' hb with hb₀ | hle
    · exact hpg.twin.buffer_iff _ _ _ _ (hpg.grows.buffers _ _ hb₀) hc
    · rcases hpg.buffers c c' hc with hc₀ | hle'
      · exact hpf.twin.buffer_iff _ _ _ _ hb (hpf.grows.buffers _ _ hc₀)
      · refine iff_of_false ?_ ?_ <;> omega
  -- the first function, and what was there before, as the right side has it last
  have hleft : ∀ l l', T₁.labels l l' → l ≠ g → ¬ T.loose l →
      Option.Rel (PointTwin split (T.union T₁ T₂) u₁) (u₁.labels.get? l) (u₂.labels.get? l') := by
    intro l l' hl hne hloose
    have hbound := hpf.twin.bound l l' hl (by
      rw [hpf.loose]
      exact fun hc => hc.elim hloose hne)
    rw [hsecond.bound l (hpf.twin.label_lt l l' hl).1 hne]
    exact optionRel_mono hbound fun p q hp =>
      (hsecond.point (hpf.twin.buffer_lt _ _ hp.buffer).1 hp).mono hT₁
  -- the second function, and what was there before, as the right side has it first
  have hright : ∀ l l', T₂.labels l l' → l ≠ f → ¬ T.loose l →
      Option.Rel (PointTwin split (T.union T₁ T₂) u₁) (u₁.labels.get? l) (u₂.labels.get? l') := by
    intro l l' hl hne hloose
    have hbound := hpg.twin.bound l l' hl (by
      rw [hpg.loose]
      exact fun hc => hc.elim hloose hne)
    have hne' : l' ≠ f' := fun he => hne ((hpg.twin.label_iff _ _ _ _ hl (hpg.grows.labels _ _ hf)).2 he)
    rw [hsecond'.bound l' (hpg.twin.label_lt l l' hl).2 hne']
    exact optionRel_mono hbound fun p q hp => hp.mono hT₂
  exact {
    returns := by rw [hsecond.returns, hfirst.returns, hsecond'.returns, hfirst'.returns, h.returns]
    scopes := by
      rw [hsecond.scopes, hfirst.scopes, hsecond'.scopes, hfirst'.scopes]
      exact h.scopes.mono hT
    level := by rw [hsecond.scopes, hfirst.scopes, h.level]
    breaks := by
      rw [hsecond.breaks, hfirst.breaks, hsecond'.breaks, hfirst'.breaks]
      exact h.breaks.imp fun _ _ => List.Forall₂.imp fun _ _ => hT.holes _ _
    own := by
      rw [hsecond.breaks, hfirst.breaks, hsecond'.breaks, hfirst'.breaks, hsecond.buffer, hfirst.buffer,
        hsecond'.buffer, hfirst'.buffer]
      exact h.own
    buffer := by
      rw [hsecond.buffer, hfirst.buffer, hsecond'.buffer, hfirst'.buffer]
      exact hT.buffers _ _ h.buffer
    label_lt := fun l l' hl => by
      rcases hl with hl | hl
      · exact ⟨Nat.lt_of_lt_of_le (hpf.twin.label_lt l l' hl).1 hsecond.next, (hpf.twin.label_lt l l' hl).2⟩
      · exact ⟨(hpg.twin.label_lt l l' hl).1, Nat.lt_of_lt_of_le (hpg.twin.label_lt l l' hl).2 hsecond'.next⟩
    label_iff := fun l l' m m' hl hm => by
      rcases hl with hl | hl <;> rcases hm with hm | hm
      · exact hpf.twin.label_iff _ _ _ _ hl hm
      · exact hlabel _ _ _ _ hl hm
      · exact eq_comm.trans ((hlabel _ _ _ _ hm hl).trans eq_comm)
      · exact hpg.twin.label_iff _ _ _ _ hl hm
    buffer_lt := fun b b' hb => by
      rcases hb with hb | hb
      · exact ⟨Nat.lt_of_lt_of_le (hpf.twin.buffer_lt b b' hb).1 hsecond.count, (hpf.twin.buffer_lt b b' hb).2⟩
      · exact ⟨(hpg.twin.buffer_lt b b' hb).1, Nat.lt_of_lt_of_le (hpg.twin.buffer_lt b b' hb).2 hsecond'.count⟩
    buffer_iff := fun b b' c c' hb hc => by
      rcases hb with hb | hb <;> rcases hc with hc | hc
      · exact hpf.twin.buffer_iff _ _ _ _ hb hc
      · exact hbuffer _ _ _ _ hb hc
      · exact eq_comm.trans ((hbuffer _ _ _ _ hc hb).trans eq_comm)
      · exact hpg.twin.buffer_iff _ _ _ _ hb hc
    unbound := ⟨hpg.twin.unbound.1, hpf.twin.unbound.2⟩
    waiting := by
      rw [hsecond.waiting, hfirst.waiting, hsecond'.waiting, hfirst'.waiting]
      exact h.waiting.imp fun _ _ hp => ⟨hT.labels _ _ hp.1, hT.buffers _ _ hp.2⟩
    bound := fun l l' hl hloose => by
      rcases hl with hl | hl
      · by_cases hlg : l = g
        · subst hlg
          obtain rfl := (hpf.twin.label_iff _ _ _ _ hl (hpf.grows.labels _ _ hg)).1 rfl
          exact hright _ _ (hpg.grows.labels _ _ hg) hfg.symm hloose
        · exact hleft l l' hl hlg hloose
      · by_cases hlf : l = f
        · subst hlf
          obtain rfl := (hpg.twin.label_iff _ _ _ _ hl (hpg.grows.labels _ _ hf)).1 rfl
          exact hleft _ _ (hpf.grows.labels _ _ hf) hfg hloose
        · exact hright l l' hl hlf hloose
    code := fun b b' hb => by
      rcases hb with hb | hb
      · exact (hsecond.codeLeft (hpf.twin.buffer_lt b b' hb).1 (hpf.twin.code b b' hb)).mono hT₁
      · exact (hsecond'.codeRight (hpg.twin.buffer_lt b b' hb).2 (hpg.twin.code b b' hb)).mono hT₂
    holes := fun p q hp => by
      rcases hp with hp | hp
      · have hhole := hpf.twin.holes p q hp
        exact (hsecond.hole (hpf.twin.buffer_lt _ _ hhole.buffer).1 hhole).mono hT₁
      · exact (hpg.twin.holes p q hp).mono hT₂ }

theorem Passes.combined {f f' g g' : Label} (h : Twin split T w₁ w₂) (hfg : f ≠ g) (hf : T.labels f f')
    (hg : T.labels g g') (hn : w₁.Names f ∧ w₂.Names f') (hn' : w₁.Names g ∧ w₂.Names g')
    (hfirst : Detached f w₁ v₁) (hsecond : Detached g v₁ u₁) (hfirst' : Detached g' w₂ v₂)
    (hsecond' : Detached f' v₂ u₂) (hpf : Passes split (T.loosened g) T₁ w₁ v₂ v₁ u₂)
    (hpg : Passes split (T.loosened f) T₂ v₁ w₂ u₁ v₂) : Passes split T (T.union T₁ T₂) w₁ w₂ u₁ u₂ where
  grows := (T.grows_loosened g).trans (hpf.grows.trans Pairing.grows_left)
  loose := rfl
  twin := h.combined hfg hf hg hfirst hsecond hfirst' hsecond' hpf hpg
  left := hfirst.trans hsecond hn.1 hn'.1
  right := hfirst'.trans hsecond' hn'.2 hn.2
  labels l l' hl := by
    rcases hl with hl | hl
    · rcases hpf.labels l l' hl with hl | ⟨hle, hle'⟩
      · exact .inl hl
      · exact .inr ⟨hle, Nat.le_trans hfirst'.next hle'⟩
    · rcases hpg.labels l l' hl with hl | ⟨hle, hle'⟩
      · exact .inl hl
      · exact .inr ⟨Nat.le_trans hfirst.next hle, hle'⟩
  buffers b b' hb := by
    rcases hb with hb | hb
    · rcases hpf.buffers b b' hb with hb | ⟨hle, hle'⟩
      · exact .inl hb
      · exact .inr ⟨hle, Nat.le_trans hfirst'.count hle'⟩
    · rcases hpg.buffers b b' hb with hb | ⟨hle, hle'⟩
      · exact .inl hb
      · exact .inr ⟨Nat.le_trans hfirst.count hle, hle'⟩
  covered := by
    -- a new buffer is of the first or of the second function
    refine ⟨fun b hle hlt => ?_, fun b hle hlt => ?_⟩
    · by_cases hb : b < v₁.buffers.size
      · obtain ⟨b', hb'⟩ := hpf.covered.1 b hle hb
        exact ⟨b', .inl hb'⟩
      · obtain ⟨b', hb'⟩ := hpg.covered.1 b (Nat.le_of_not_lt hb) hlt
        exact ⟨b', .inr hb'⟩
    · by_cases hb : b < v₂.buffers.size
      · obtain ⟨b', hb'⟩ := hpg.covered.2 b hle hb
        exact ⟨b', .inr hb'⟩
      · obtain ⟨b', hb'⟩ := hpf.covered.2 b (Nat.le_of_not_lt hb) hlt
        exact ⟨b', .inl hb'⟩

/-! ### The code of two functions -/

/-- The block in use knows a function under this name. -/
def Writer.Knows (w : Writer) (name : String) (l : Label) (s : Signature) : Prop :=
  ∃ e, w.scopes.findCurrent? name = some e ∧ e.location = .entry l ∧ e.signature = some s

theorem Writer.Knows.names {w : Writer} {name : String} {l : Label} {s : Signature} (h : w.Knows name l s) :
    w.Names l := by
  obtain ⟨e, he, hl, -⟩ := h
  exact ⟨e, (Scope.mem_of_find? he).1, hl⟩

theorem Writer.Knows.congr {w v : Writer} {name : String} {l : Label} {s : Signature} (h : w.Knows name l s)
    (hs : v.scopes = w.scopes) : v.Knows name l s := by
  unfold Writer.Knows
  rw [hs]
  exact h

/-- A name stands for the same function on both sides. -/
theorem Twin.knows {name : String} {l : Label} {s : Signature} (h : Twin split T w₁ w₂) (hk : w₁.Knows name l s) :
    ∃ l', T.labels l l' ∧ w₂.Knows name l' s := by
  obtain ⟨e, he, hl, hs⟩ := hk
  have hfound := h.scopes.inner.found name
  rw [show w₁.scopes.inner.find? name = some e from he] at hfound
  generalize hy : w₂.scopes.inner.find? name = y at hfound
  cases hfound with
  | @some _ e' htwin =>
    have hlocation := htwin.location
    rw [hl] at hlocation
    generalize hl' : e'.location = x at hlocation
    cases hlocation with
    | entry hlabels =>
      refine ⟨_, hlabels, e', hy, hl', ?_⟩
      rw [htwin.same]
      exact hs

theorem Writer.Knows.run {w : Writer} {name : String} {l : Label} {s : Signature} (h : w.Knows name l s)
    (params : List Param) (returns : String) : declaredFunction name params returns w = .ok ((l, s), w) := by
  obtain ⟨e, he, hl, hs⟩ := h
  obtain ⟨n, t, k, location, frame, constant, signature⟩ := e
  subst hl hs
  have hfind : findCurrent name w = .ok (some _, w) := findCurrent_eq_ok.2 ⟨he.symm, rfl⟩
  unfold declaredFunction
  refine bind_eq_ok.2 ⟨_, w, hfind, ?_⟩
  exact bind_eq_ok.2 ⟨_, w, hfind, rfl⟩

/-- Two functions, written in one order on the left and in the other on the right. -/
theorem Twin.exchange {f g : Label} {name name' : String} {s s' : Signature} {x y x' y' : Write Unit}
    (h : Twin split T w₁ w₂) (params params' : List Param) (returns returns' : String) (hfg : f ≠ g)
    (hkf : w₁.Knows name f s) (hkg : w₁.Knows name' g s') (hx : Parallel split Any x x')
    (hy : Parallel split Any y y') :
    Together split T w₁ w₂ Any (do function name params returns x; function name' params' returns' y)
      (do function name' params' returns' y'; function name params returns x') := by
  obtain ⟨f', hf, hkf'⟩ := h.knows hkf
  obtain ⟨g', hg, hkg'⟩ := h.knows hkg
  have hbothF : Agree split T w₁ w₂ _ _ _ := h.body hf hkf.names hkf'.names params s hx
  have hbothG : Agree split T w₁ w₂ _ _ _ := h.body hg hkg.names hkg'.names params' s' hy
  -- the second function in front of the first one on the right
  have hlast : ∀ {v₂}, Detached g' w₂ v₂ → (∀ m : Label, v₂.labels.next ≤ m.id → v₂.labels.get? m = none) →
      Agree split (T.loosened g) w₁ v₂ (fun _ u₁ u₂ _ _ => Detached f w₁ u₁ ∧ Detached f' v₂ u₂)
        (functionAt params f s x w₁) (functionAt params f' s x' v₂) := fun hd hu =>
    (h.behind hg hd hu).body hf hkf.names (hkf'.congr hd.scopes).names params s hx
  -- the first function in front of the second one on the left
  have hfirst : ∀ {v₁}, Detached f w₁ v₁ → (∀ m : Label, v₁.labels.next ≤ m.id → v₁.labels.get? m = none) →
      Agree split (T.loosened f) v₁ w₂ (fun _ u₁ u₂ _ _ => Detached g v₁ u₁ ∧ Detached g' w₂ u₂)
        (functionAt params' g s' y v₁) (functionAt params' g' s' y' w₂) := fun hd hu =>
    (h.ahead hd hu).body hg (hkg.congr hd.scopes).names hkg'.names params' s' hy
  unfold Together
  show Agree split T w₁ w₂ Any (function name params returns x w₁ >>= fun p => function name' params' returns' y p.2)
    (function name' params' returns' y' w₂ >>= fun p => function name params returns x' p.2)
  rw [function_run (hkf.run params returns), function_run (hkg'.run params' returns')]
  cases hF : functionAt params f s x w₁ with
  -- the first function fails on the left; on the right it fails where its turn comes
  | error e =>
    cases hG : functionAt params' g' s' y' w₂ with
    | error e' => exact .error e e'
    | ok p =>
      obtain ⟨_, v₂⟩ := p
      obtain ⟨_, _, _, -, hp, -, hd⟩ := hbothG.of_right hG
      obtain ⟨e', hF'⟩ := (hlast hd hp.twin.unbound.2).fails_right hF
      show Agree split T w₁ w₂ Any (.error e) (function name params returns x' v₂)
      rw [function_run ((hkf'.congr hd.scopes).run params returns), hF']
      exact .error e e'
  | ok p =>
    obtain ⟨_, v₁⟩ := p
    obtain ⟨_, _, _, -, hp, hdf, -⟩ := hbothF.of_left hF
    -- the first function is compiled, and so the second one can be on either side
    have hnext := hfirst hdf hp.twin.unbound.1
    show Agree split T w₁ w₂ Any (function name' params' returns' y v₁) _
    rw [function_run ((hkg.congr hdf.scopes).run params' returns')]
    cases hG : functionAt params' g' s' y' w₂ with
    | error e' =>
      obtain ⟨e, hG'⟩ := hnext.fails_left hG
      rw [hG']
      exact .error e e'
    | ok p =>
      obtain ⟨_, v₂⟩ := p
      obtain ⟨T₂, _, u₁, hG', hpg, hdg, hdg'⟩ := hnext.of_right hG
      obtain ⟨T₁, _, u₂, hF', hpf, -, hdf'⟩ := (hlast hdg' hpg.twin.unbound.2).of_left hF
      show Agree split T w₁ w₂ Any _ (function name params returns x' v₂)
      rw [function_run ((hkf'.congr hdg'.scopes).run params returns), hG', hF']
      exact .ok (.combined h hfg hf hg ⟨hkf.names, hkf'.names⟩ ⟨hkg.names, hkg'.names⟩ hdf hdg hdg' hdf' hpf hpg)
        trivial

/-! ### The declarations of two functions -/

/-- The signature that a declaration gives, if its types are known. -/
def signature? (params : List Param) (returns : String) : Option Signature := do
  let types ← params.mapM fun p => Ty.ofText? p.typeName
  return ⟨types, ← Ty.ofText? returns⟩

def Entity.ofFunction (name : String) (l : Label) (s : Signature) (frame : Nat) : Entity :=
  { name, type := .function, kind := .function, location := .entry l, frame, constant := true, signature := some s }

theorem resolveTypes_eq_ok {params : List Param} {types : List Ty} {w w' : Writer} :
    (params.mapM fun p => resolveType p.typeName) w = .ok (types, w') ↔
      (params.mapM fun p => Ty.ofText? p.typeName) = some types ∧ w' = w := by
  induction params generalizing types with
  | nil =>
    simp only [List.mapM_nil, pure_eq_ok, Option.pure_def, Option.some.injEq]
    grind
  | cons p params ih =>
    simp only [List.mapM_cons, bind_eq_ok, resolveType_eq_ok, pure_eq_ok, Option.bind_eq_bind,
      Option.bind_eq_some_iff, Option.pure_def, Option.some.injEq]
    grind

theorem ScopeChain.declareFunction_of_new {c : ScopeChain} {name : String} (h : c.inner.declares name = false)
    (l : Label) (s : Signature) : c.declareFunction name l s =
      (.ok (.ofFunction name l s c.functionDepth), c.add (.ofFunction name l s c.functionDepth)) := by
  rw [ScopeChain.declareFunction, if_neg (by rw [h]; exact Bool.false_ne_true)]
  rfl

theorem ScopeChain.declares_add (c : ScopeChain) (e : Entity) (name : String) :
    (c.add e).inner.declares name = (e.name == name || c.inner.declares name) := by
  simp only [ScopeChain.add, Scope.declares, Scope.find?, List.find?_cons]
  cases e.name == name <;> rfl

theorem declareFunction_eq_ok_iff {name : String} {params : List Param} {returns : String} {w v : Writer} {u : Unit} :
    declareFunction name params returns w = .ok (u, v) ↔ ∃ s, signature? params returns = some s ∧
      w.scopes.inner.declares name = false ∧
      v = w.entered (w.scopes.add (.ofFunction name ⟨w.labels.next⟩ s w.scopes.functionDepth)) := by
  simp only [declareFunction, bind_eq_ok, resolveTypes_eq_ok, resolveType_eq_ok, modifyGet_eq_ok, discard_eq_ok,
    inScopes_eq_ok, signature?, Option.bind_eq_bind, Option.bind_eq_some_iff, Option.pure_def, Option.some.injEq]
  constructor
  · rintro ⟨types, _, ⟨htypes, rfl⟩, t, _, ⟨ht, rfl⟩, _, _, ⟨rfl, rfl⟩, e, c, hc, rfl⟩
    obtain ⟨hnew, he, rfl⟩ := ScopeChain.declareFunction_eq_ok hc
    exact ⟨_, ⟨types, htypes, t, ht, rfl⟩, hnew, by rw [he]; rfl⟩
  · rintro ⟨_, ⟨types, htypes, t, ht, rfl⟩, hnew, rfl⟩
    exact ⟨types, w, ⟨htypes, rfl⟩, t, w, ⟨ht, rfl⟩, _, _, ⟨rfl, rfl⟩, _, _,
      ScopeChain.declareFunction_of_new hnew _ _, rfl⟩

/-- Two functions of a block, by their names. -/
def Writer.KnowsBoth (w : Writer) (name name' : String) : Prop :=
  ∃ l s l' s', w.Knows name l s ∧ w.Knows name' l' s' ∧ l ≠ l'

theorem Writer.KnowsBoth.later {name name' : String} (h : w₁.KnowsBoth name name') (hg : w₁.scopes.Grows v₁.scopes) :
    v₁.KnowsBoth name name' := by
  obtain ⟨l, s, l', s', ⟨e, he, hk⟩, ⟨e', he', hk'⟩, hne⟩ := h
  exact ⟨l, s, l', s', ⟨e, hg.found _ _ he, hk⟩, ⟨e', hg.found _ _ he', hk'⟩, hne⟩

theorem ScopeTwin.exchanged {s s' : Scope} {e e' f f' : Entity} (h : ScopeTwin T s s') (he : EntityTwin T e e')
    (hf : EntityTwin T f f') (hne : e.name ≠ f.name) :
    ScopeTwin T ⟨f :: e :: s.entities, s.frame⟩ ⟨e' :: f' :: s'.entities, s'.frame⟩ := by
  have hname : e'.name = e.name := by rw [he.same]
  have hname' : f'.name = f.name := by rw [hf.same]
  refine ⟨h.frame, fun name => ?_⟩
  simp only [Scope.find?, List.find?_cons, hname, hname']
  by_cases hn : e.name = name
  · have hn' : ¬ f.name = name := fun hn' => hne (hn.trans hn'.symm)
    rw [beq_iff_eq.2 hn, beq_eq_false_iff_ne.2 hn']
    exact .some he
  · rw [beq_eq_false_iff_ne.2 hn]
    cases f.name == name with
    | true => exact .some hf
    | false => exact h.found name

def Writer.enteredBoth (w : Writer) (name : String) (s : Signature) (name' : String) (s' : Signature) : Writer :=
  (w.entered (w.scopes.add (.ofFunction name ⟨w.labels.next⟩ s w.scopes.functionDepth))).entered
    ((w.scopes.add (.ofFunction name ⟨w.labels.next⟩ s w.scopes.functionDepth)).add
      (.ofFunction name' ⟨w.labels.next + 1⟩ s' w.scopes.functionDepth))

theorem declareBoth_eq_ok {name name' : String} {params params' : List Param} {returns returns' : String}
    {w v : Writer} {u : Unit} :
    (do declareFunction name params returns; declareFunction name' params' returns' : Write Unit) w = .ok (u, v) ↔
      ∃ s s', (signature? params returns = some s ∧ signature? params' returns' = some s') ∧
        (w.scopes.inner.declares name = false ∧ w.scopes.inner.declares name' = false) ∧ name ≠ name' ∧
        v = w.enteredBoth name s name' s' := by
  have hdeclares : ∀ l s n, (w.scopes.add (.ofFunction name l s n)).inner.declares name' = false ↔
      name ≠ name' ∧ w.scopes.inner.declares name' = false := fun l s n => by
    rw [ScopeChain.declares_add, Bool.or_eq_false_iff, beq_eq_false_iff_ne]
    rfl
  simp only [bind_eq_ok, declareFunction_eq_ok_iff]
  constructor
  · rintro ⟨_, _, ⟨s, hs, hnew, rfl⟩, s', hs', hnew', rfl⟩
    obtain ⟨hne, hnew'⟩ := (hdeclares _ _ _).1 hnew'
    exact ⟨s, s', ⟨hs, hs'⟩, ⟨hnew, hnew'⟩, hne, rfl⟩
  · rintro ⟨s, s', ⟨hs, hs'⟩, ⟨hnew, hnew'⟩, hne, rfl⟩
    exact ⟨(), _, ⟨s, hs, hnew, rfl⟩, s', hs', (hdeclares _ _ _).2 ⟨hne, hnew'⟩, rfl⟩

theorem Kin.enteredBoth {w : Writer} {name name' : String} (s s' : Signature)
    (h : w.scopes.inner.declares name = false ∧ w.scopes.inner.declares name' = false) (hne : name ≠ name') :
    Kin w (w.enteredBoth name s name' s') := by
  have hfirst := Kin.entered (ScopeChain.declareFunction_of_new h.1 ⟨w.labels.next⟩ s)
  refine hfirst.trans (.entered (ScopeChain.declareFunction_of_new ?_ ⟨w.labels.next + 1⟩ s'))
  show (w.scopes.add _).inner.declares name' = false
  rw [ScopeChain.declares_add, h.2, Bool.or_false]
  exact beq_false_of_ne hne

theorem Writer.knowsBoth_entered (w : Writer) {name name' : String} (s s' : Signature) (hne : name ≠ name') :
    (w.enteredBoth name s name' s').KnowsBoth name name' := by
  refine ⟨⟨w.labels.next⟩, s, ⟨w.labels.next + 1⟩, s',
    ⟨.ofFunction name ⟨w.labels.next⟩ s w.scopes.functionDepth, ?_, rfl, rfl⟩,
    ⟨.ofFunction name' ⟨w.labels.next + 1⟩ s' w.scopes.functionDepth, ?_, rfl, rfl⟩, by simp⟩
  · simp [Writer.enteredBoth, Writer.entered, ScopeChain.add, ScopeChain.findCurrent?, Scope.find?,
      Entity.ofFunction, hne.symm]
  · simp [Writer.enteredBoth, Writer.entered, ScopeChain.add, ScopeChain.findCurrent?, Scope.find?,
      Entity.ofFunction]

/-- Two functions are declared in either order. -/
theorem Twin.enteredBoth (h : Twin split T w₁ w₂) {name name' : String} (s s' : Signature) (hne : name ≠ name') :
    Twin split ((T.withLabel ⟨w₁.labels.next⟩ ⟨w₂.labels.next + 1⟩).withLabel ⟨w₁.labels.next + 1⟩ ⟨w₂.labels.next⟩)
      (w₁.enteredBoth name s name' s') (w₂.enteredBoth name' s' name s) := by
  have hfirst := h.reserved.reserved.paired ⟨w₁.labels.next⟩ ⟨w₂.labels.next + 1⟩
    ⟨Nat.lt_succ_of_lt (Nat.lt_succ_self _), Nat.lt_succ_self _⟩
    (fun m m' => h.newer (Nat.le_refl _) (Nat.le_succ _)) (h.unbound.1 _ (Nat.le_refl _))
    (h.unbound.2 _ (Nat.le_succ _))
  have hsecond := hfirst.paired ⟨w₁.labels.next + 1⟩ ⟨w₂.labels.next⟩
    ⟨Nat.lt_succ_self _, Nat.lt_succ_of_lt (Nat.lt_succ_self _)⟩
    (by
      rintro m m' (hm | ⟨rfl, rfl⟩)
      · exact h.newer (Nat.le_succ _) (Nat.le_refl _) hm
      · simp)
    (h.unbound.1 _ (Nat.le_succ _)) (h.unbound.2 _ (Nat.le_refl _))
  have hchain : ChainTwin _ (w₁.enteredBoth name s name' s').scopes (w₂.enteredBoth name' s' name s).scopes :=
    ⟨?_, hsecond.scopes.outer, hsecond.scopes.frame, hsecond.scopes.frames⟩
  · exact hsecond.withScopes hchain h.level
  have hdepth := h.scopes.functionDepth
  refine hsecond.scopes.inner.exchanged ⟨?_, .entry (.inl (.inr ⟨rfl, rfl⟩))⟩ ⟨?_, .entry (.inr ⟨rfl, rfl⟩)⟩ hne
  · rw [← hdepth]
    rfl
  · rw [← hdepth]
    rfl

theorem Together.declareBoth (h : Twin split T w₁ w₂) (name name' : String) (params params' : List Param)
    (returns returns' : String) :
    Together split T w₁ w₂ (fun _ v₁ _ _ _ => v₁.KnowsBoth name name')
      (do Write.declareFunction name params returns; Write.declareFunction name' params' returns')
      (do Write.declareFunction name' params' returns'; Write.declareFunction name params returns) := by
  have hdeclares := fun n => h.scopes.inner.declares n
  refine .of_ok (fun _ v₁ hx => ?_) fun _ v₂ hy => ?_
  · obtain ⟨s, s', ⟨hs, hs'⟩, hnew, hne, rfl⟩ := declareBoth_eq_ok.1 hx
    have hright : w₂.scopes.inner.declares name' = false ∧ w₂.scopes.inner.declares name = false :=
      ⟨(hdeclares name').trans hnew.2, (hdeclares name).trans hnew.1⟩
    refine ⟨_, (), _, declareBoth_eq_ok.2 ⟨s', s, ⟨hs', hs⟩, hright, hne.symm, rfl⟩,
      ⟨(T.grows_withLabel _ _).trans (Pairing.grows_withLabel _ _ _), rfl, h.enteredBoth s s' hne,
        .enteredBoth s s' hnew hne, .enteredBoth s' s hright hne.symm, ?_, fun _ _ => .inl,
        fun _ hle hlt => absurd hlt (Nat.not_lt.2 hle),
        fun _ hle hlt => absurd hlt (Nat.not_lt.2 hle)⟩, w₁.knowsBoth_entered s s' hne⟩
    rintro l l' ((hl | ⟨rfl, rfl⟩) | ⟨rfl, rfl⟩)
    · exact .inl hl
    · exact .inr ⟨Nat.le_refl _, Nat.le_succ _⟩
    · exact .inr ⟨Nat.le_succ _, Nat.le_refl _⟩
  · obtain ⟨s', s, ⟨hs', hs⟩, ⟨hnew', hnew⟩, hne, rfl⟩ := declareBoth_eq_ok.1 hy
    exact ⟨(), _, declareBoth_eq_ok.2 ⟨s, s', ⟨hs, hs'⟩,
      ⟨(hdeclares name).symm.trans hnew, (hdeclares name').symm.trans hnew'⟩, hne.symm, rfl⟩⟩

end StackScript.Assembly
