import StackScript.Proofs.BlockWriting

/-!
# The code that is written for programs

The writer of a whole program is linked to the finished program: buffers lie one behind the other,
and every label is the index of the instruction it was bound to (`finish_kept`).  With this, the
code of every program that compiles has the shape that its tree gives it (`code_of_compile`).
-/

namespace StackScript.Assembly

open Typing Bytecode Host Syntax Assembly.Write

/-! ### The top level -/

section TopLevel

variable {K : Link} {functions : List (String × Nat)} {w w₁ w₂ w' : Writer}

/-- A statement that is no expression leaves no value. -/
theorem stmt_eq_ok_of_plain {setting : Setting} {s : Stmt} {left : Bool} (hs : ∀ e, s ≠ .expr e)
    (h : stmt setting true s w = .ok (left, w')) :
    left = false ∧ discard (stmt setting false s) w = .ok ((), w') := by
  have hsame : stmt setting true s = stmt setting false s := by
    cases s <;> first | exact absurd rfl (hs _) | simp only [stmt]
  have hleft : left = false := by
    cases s <;> first
      | exact absurd rfl (hs _)
      | (simp only [stmt, bind_eq_ok, pure_eq_ok] at h; grind)
  exact ⟨hleft, discard_eq_ok.2 ⟨left, hsame ▸ h⟩⟩

/-- What is written for the statements of a program. -/
structure TopWritten (K : Link) (body : List Stmt) (left : Bool) (w w' : Writer) : Prop
    extends Passage K.arity w w' where
  count : w'.buffers.size = w.buffers.size + (bodiesAll body).length
  functions : Kept K w'.size w' → Covers K w.buffers.size (functionsAll w.scopes.context body)
  code : Kept K w'.size w' → Exits K w' [] → TopCode K.layout (K.room w.buffer) w.scopes body
    (K.base w.buffer + w.size) (K.base w.buffer + w'.size) left

/-- The last expression of a program keeps its value. -/
theorem lastExpr_written {code : Write Unit} {e : Expr} {left : Bool} (hc : Writes K code e)
    (hw : Wf K.arity w) (h : exprStmt code true w = .ok (left, w')) :
    TopWritten K [.expr e] left w w' := by
  obtain ⟨w₁, h₁, h⟩ := exprStmt_eq_ok h
  have hone := hc hw h₁
  rcases h with ⟨hv, rfl, rfl⟩ | ⟨hv, -, rfl, rfl⟩ | ⟨-, hk, -⟩
  · refine ⟨hone.passage, hone.count, fun _ => .nil, fun hk _ => ?_⟩
    obtain ⟨q, d, hq, hcode, hhas⟩ := hone.in_place hk
    rw [hv] at hcode
    rw [hq]
    exact .last (.void hcode hhas)
  · refine ⟨hone.passage, hone.count, fun _ => .nil, fun hk _ => ?_⟩
    exact .last (.value ((hone.value hv).code hk))
  · cases hk

theorem topLevel_written {setting : Setting} (hK : K.environment = setting.environment)
    {left : Bool} : ∀ {body : List Stmt} {w : Writer}, Wf K.arity w →
      topLevel setting body w = .ok (left, w') → ReadyAll K functions body w →
      TopWritten K body left w w'
  | [], w, hw, h, hr => by
    obtain ⟨rfl, rfl⟩ := pure_eq_ok.1 h
    exact ⟨.refl hw, rfl, fun _ => .nil, fun _ _ => .nil⟩
  | [s], w, hw, h, hr => by
    rw [topLevel] at h
    by_cases hs : ∀ e, s ≠ .expr e
    · obtain ⟨rfl, hplain⟩ := stmt_eq_ok_of_plain hs h
      have hone := stmt_writes hK s hw hplain hr.head
      have hbodies : bodiesAll [s] = s.bodies := by rw [bodiesAll, bodiesAll, List.append_nil]
      refine ⟨hone.toPassage, ?_, fun hk => ?_, fun hk hexits => ?_⟩
      · rw [hone.count, hbodies]
      · exact (hone.functions hk).append .nil rfl
      · exact .last (.other hs (hone.code [] hk hexits))
    · -- an expression at the end leaves its value
      obtain ⟨e, rfl⟩ := not_forall_not.1 hs
      rw [stmt] at h
      exact lastExpr_written (expr_writes hK e) hw h
  | s :: next :: rest, w, hw, h, hr => by
    simp only [topLevel, bind_eq_ok] at h
    obtain ⟨_, w₁, h₁, h₂⟩ := h
    have hone := stmt_writes hK s hw h₁ hr.head
    have hmore := topLevel_written hK hone.wf h₂ (hr.tail hone)
    -- what the linked program has of the whole, it has of the first statement
    have hfront : Kept K w'.size w' → Kept K w₁.size w₁ := fun hk =>
      hk.whole hmore.frame hmore.frame.size
    refine ⟨hone.toPassage.trans hmore.toPassage, ?_, fun hk => ?_, fun hk hexits => ?_⟩
    · rw [hmore.count, hone.count, bodiesAll.eq_def (s :: next :: rest), List.length_append,
        Nat.add_assoc]
    · have hsecond := hmore.functions hk
      rw [hone.names] at hsecond
      exact (hone.functions (hfront hk)).append hsecond (by rw [hone.count, Stmt.functions_length])
    · have hcode := hmore.code hk hexits
      rw [hone.buffer] at hcode
      exact .cons (hone.code [] (hfront hk) (hexits.back hmore.toPassage)) hcode

end TopLevel

/-! ### The start and the end -/

section Program

variable {K : Link} {w w' : Writer}

/-- The writer of a program behind the room for its variables. -/
def Writer.start : Writer := Writer.empty.add ⟨.allocStack, .int (0 : Nat)⟩

theorem start_wf {arity : Nat → Nat} (h : arity 0 = 0) : Wf arity .start := by
  have hat : Writer.start.at 0 0 = some ⟨.allocStack, .int (0 : Nat)⟩ := rfl
  have hlabels : Writer.start.labels = .empty := rfl
  refine ⟨Nat.one_pos, fun l pt hl => ?_, fun l b hl => ?_, fun e he => ?_, ?_, fun _ => rfl,
    ⟨0, hat, Nat.le_refl _⟩, ⟨0, hat, Nat.le_refl _⟩, fun pt hpt => ?_, List.nodup_nil⟩
  · rw [hlabels] at hl
    simp [LabelTable.get?, LabelTable.empty] at hl
  · rw [hlabels] at hl
    cases hl
  · simp [Writer.start, Writer.empty, ScopeChain.empty, ScopeChain.entities, ScopeChain.scopes] at he
  · show ScopeChain.Sound (arity 0) .empty
    rw [h]
    exact .empty
  · cases hpt

/-- The numbers of parameters of a program's buffers: the main stream has none. -/
def aritiesOf (body : List Stmt) : Nat → Nat
  | 0 => 0
  | b + 1 => ((bodiesAll body)[b]?.map (·.1)).getD 0

/-- What is written for a program has the shape of its code, if the finished program keeps it. -/
theorem program_written {setting : Setting} {body : List Stmt}
    (hK : K.environment = setting.environment) (harity : K.arity = aritiesOf body)
    (hs : SteadyProgram body) (h : program setting body .empty = .ok ((), w')) :
    K.program.version = currentVersion → K.base 0 = 0 → K.size = w'.sizeOf →
      K.count = w'.buffers.size → Kept K w'.size w' → ProgramCode K.layout body := by
  simp only [Write.program, bind_eq_ok, put_eq_ok] at h
  obtain ⟨_, w₀, hw₀, _, w₁, h₁, left, w₂, h₂, h⟩ := h
  obtain rfl : w₀ = .start := hw₀
  have hw : Wf K.arity .start := start_wf (by rw [harity]; rfl)
  have hhoist := hoist_written hw h₁
  have hcount₁ : w₁.buffers.size = 1 := hhoist.count
  have hnumbered : Numbered K.arity 1 (bodiesAll body) := fun i k hi => by
    rw [harity, Nat.add_comm, aritiesOf, hi]
    rfl
  have hagrees := hhoist.agreeing hs.1 fun _ he => absurd he List.not_mem_nil
  have htop := topLevel_written hK hhoist.wf h₂ ⟨hcount₁ ▸ hnumbered, hhoist.consistent hs.1, hagrees,
    List.Subset.refl _, hs.2⟩
  have hp := hhoist.toPassage.trans htop.toPassage
  -- behind the statements there is a value, and then the end
  have hend : ∃ w₃, Stretch K.arity w₂ w₃ ∧ w' = w₃.add ⟨.term, .none⟩ ∧
      (left = true ∧ w₃ = w₂ ∨ left = false ∧ w₃ = w₂.add ⟨.loadNull, .none⟩) := by
    cases left with
    | true =>
      simp only [Bool.not_true, Bool.false_eq_true, if_false, put_eq_ok] at h
      exact ⟨w₂, .refl htop.wf, h, .inl ⟨rfl, rfl⟩⟩
    | false =>
      simp only [Bool.not_false, if_true, bind_eq_ok, put_eq_ok] at h
      obtain ⟨_, _, rfl, h⟩ := h
      exact ⟨_, (Stretch.refl htop.wf).add _, h, .inr ⟨rfl, rfl⟩⟩
  obtain ⟨w₃, hs₃, hw', hleft⟩ := hend
  have hterm : Stretch K.arity w₃ w' := hw' ▸ (Stretch.refl hs₃.wf).add ⟨.term, .none⟩
  have hbuffer : w₂.buffer = 0 := hp.buffer
  -- from here on the program is linked
  intro hversion hbase hsizes hbuffers hk
  have hk₃ := hk.whole hterm.frame hterm.frame.size
  have hk₂ := hk₃.whole hs₃.frame hs₃.frame.size
  have hk₀ := (hk₂.whole htop.frame htop.frame.size).whole hhoist.frame hhoist.frame.size
  have harity₀ : K.arity 0 = 0 := by rw [harity]; rfl
  have hcount₂ : w'.buffers.size = 1 + (bodiesAll body).length := by
    rw [hw', Writer.add_buffers_size, hs₃.count, htop.count, hcount₁]
  have howned : ∀ a, a < w'.size → K.layout.roomOf a = ⟨0, K.layout.top⟩ := fun a ha => by
    have h := hk.owned (Nat.le_refl _) ha
    rwa [show w'.buffer = 0 by rw [hw']; exact hs₃.buffer.trans hbuffer, hbase, Nat.zero_add, Link.room,
      harity₀] at h
  have hsize : w'.size = w₃.size + 1 := hw' ▸ hs₃.wf.add_size _
  have hsize₀ : K.size 0 = w'.size := by
    rw [hsizes, Writer.size, show w'.buffer = 0 by rw [hw']; exact hs₃.buffer.trans hbuffer]
  have hsize₃ := hs₃.frame.size
  refine ⟨hversion, ?_, ⟨w₁.scopes, w₂.size, left, hhoist.code, ?_, fun a ha => howned a (by omega), ?_⟩,
    ?_, ?_, fun i f hi hf => ?_⟩
  · obtain ⟨d, hd⟩ := hk₀.code 0 hw.size_pos ⟨.allocStack, .int (0 : Nat)⟩ rfl
    obtain ⟨-, rfl⟩ := Kept.settled_room hd
    have hhas := hd.has
    rwa [show Writer.start.buffer = 0 from rfl, hbase] at hhas
  · have hcode := htop.code hk₂ fun k pt hpt => by
      rw [List.length_eq_zero_iff.1 hp.depth] at hpt
      exact absurd hpt List.not_mem_nil
    have hsize₁ : w₁.size = 1 := hhoist.size
    rwa [hsize₁, show w₁.buffer = 0 from hhoist.buffer, hbase, Nat.zero_add, Nat.zero_add, Link.room,
      harity₀] at hcode
  · have hlast := add_has (d := ⟨.term, .none⟩) hs₃.wf rfl (by rintro _ ⟨⟩) (hw' ▸ (Stretch.refl hterm.wf).passage) hk
    rw [hs₃.buffer, hbuffer, hbase, Nat.zero_add] at hlast
    rcases hleft with ⟨rfl, rfl⟩ | ⟨rfl, rfl⟩
    · refine .inl ⟨rfl, hlast, ?_⟩
      show K.base 0 + K.size 0 = _
      omega
    · have hnull := add_has (d := ⟨.loadNull, .none⟩) htop.wf rfl (by rintro _ ⟨⟩) (hw' ▸ hterm.passage) hk
      rw [hbuffer, hbase, Nat.zero_add] at hnull
      rw [htop.wf.add_size] at hlast hsize
      refine .inr ⟨rfl, hnull, hlast, howned _ (by omega), ?_⟩
      show K.base 0 + K.size 0 = _
      omega
  · exact hbase
  · show K.count = (functionsAll (Context.empty.hoist body) body).length + 1
    rw [hbuffers, hcount₂, functionsAll_length, Nat.add_comm]
  · obtain ⟨i, rfl⟩ := Nat.exists_eq_add_one_of_ne_zero hi
    have hnames : w₁.scopes.context = Context.empty.hoist body := hhoist.code.names
    have hcode := htop.functions hk₂ i f (hnames ▸ hf)
    have hbody : (bodiesAll body)[i]? = some f.code := by
      rw [← functionsAll_code body, List.getElem?_map]
      exact congrArg _ hf
    have hn := hnumbered i _ hbody
    rw [Nat.add_comm] at hn
    rw [hcount₁, Nat.add_comm] at hcode
    exact ⟨hn, hcode⟩

end Program

/-! ### The finished program -/

/-- Buffers lie one behind the other. -/
theorem getElem?_flatMap_of_base {start base : Nat} {buffers : List (Array Draft)} {b i : Nat} {d : Draft}
    (hb : (basesFrom start buffers)[b]? = some base) (hd : (buffers[b]?.getD #[])[i]? = some d) :
    start ≤ base ∧ (buffers.flatMap (·.toList))[base - start + i]? = some d := by
  induction buffers generalizing start b with
  | nil => cases hb
  | cons code rest ih =>
    have hlt := (Array.getElem?_eq_some_iff.1 hd).1
    rw [List.flatMap_cons]
    cases b with
    | zero =>
      obtain rfl := Option.some.inj hb
      refine ⟨Nat.le_refl _, ?_⟩
      rw [Nat.sub_self, Nat.zero_add, List.getElem?_append_left (by simpa using hlt)]
      simpa using hd
    | succ b =>
      obtain ⟨hle, hget⟩ := ih hb hd
      refine ⟨by omega, ?_⟩
      rw [List.getElem?_append_right (by rw [Array.length_toList]; omega), ← hget,
        Array.length_toList]
      congr 1
      omega

theorem basesFrom_getElem? {start : Nat} {buffers : List (Array Draft)} {b : Nat} (hb : b < buffers.length) :
    ∃ base, (basesFrom start buffers)[b]? = some base := by
  induction buffers generalizing start b with
  | nil => exact absurd hb (Nat.not_lt_zero _)
  | cons code rest ih =>
    cases b with
    | zero => exact ⟨start, rfl⟩
    | succ b => exact ih (Nat.lt_of_succ_lt_succ hb)

theorem basesFrom_le {start base : Nat} {buffers : List (Array Draft)} {b : Nat}
    (hb : (basesFrom start buffers)[b]? = some base) : start ≤ base := by
  induction buffers generalizing start b with
  | nil => cases hb
  | cons code rest ih =>
    cases b with
    | zero => exact Nat.le_of_eq (Option.some.inj hb)
    | succ b => exact Nat.le_trans (Nat.le_add_right _ _) (ih hb)

/-- A buffer ends before the next one starts. -/
theorem basesFrom_lt {start base base' : Nat} {buffers : List (Array Draft)} {b b' : Nat}
    (hb : (basesFrom start buffers)[b]? = some base)
    (hb' : (basesFrom start buffers)[b']? = some base') (hlt : b < b') :
    base + (buffers[b]?.getD #[]).size ≤ base' := by
  induction buffers generalizing start b b' with
  | nil => cases hb
  | cons code rest ih =>
    obtain ⟨b', rfl⟩ := Nat.exists_eq_add_one_of_ne_zero (Nat.ne_zero_of_lt hlt)
    cases b with
    | zero =>
      obtain rfl := Option.some.inj hb
      exact basesFrom_le hb'
    | succ b => exact ih hb hb' (Nat.lt_of_succ_lt_succ hlt)

theorem mapM_getElem? {α β ε : Type} {f : α → Except ε β} {l : List α} {l' : List β}
    (h : l.mapM f = .ok l') {i : Nat} {a : α} (hi : l[i]? = some a) :
    ∃ b, l'[i]? = some b ∧ f a = .ok b := by
  induction l generalizing l' i with
  | nil => cases hi
  | cons x rest ih =>
    rw [List.mapM_cons] at h
    cases hx : f x with
    | error e =>
      rw [hx] at h
      cases h
    | ok y =>
      rw [hx] at h
      cases hr : rest.mapM f with
      | error e =>
        rw [hr] at h
        cases h
      | ok ys =>
        rw [hr] at h
        obtain rfl := Except.ok.inj h
        cases i with
        | zero =>
          obtain rfl := Option.some.inj hi
          exact ⟨y, rfl, hx⟩
        | succ i => exact ih hr hi

/-- Every instruction that was written stands in the finished program. -/
theorem Writer.finish_getElem? {w : Writer} {program : Program} (h : w.finish = .ok program) {b i : Nat}
    {d : Draft} (hd : w.at b i = some d) : ∃ instruction,
      program.code[(basesFrom 0 w.buffers.toList).toArray.getD b 0 + i]? = some instruction ∧
      d.resolve w.labels (basesFrom 0 w.buffers.toList).toArray = .ok instruction := by
  simp only [Writer.finish, Array.mapM_eq_mapM_toList, Array.toList_flatMap, id_eq] at h
  cases hcode : (w.buffers.toList.flatMap (·.toList)).mapM
      (Draft.resolve w.labels (basesFrom 0 w.buffers.toList).toArray) with
  | error e =>
    rw [hcode] at h
    cases h
  | ok code =>
    rw [hcode] at h
    obtain rfl := Except.ok.inj h
    have hb := Writer.buffer_lt_of_size (Nat.lt_of_le_of_lt (Nat.zero_le _) (Writer.at_lt hd))
    obtain ⟨base, hbase⟩ := @basesFrom_getElem? 0 w.buffers.toList _
      (by rwa [Array.length_toList])
    obtain ⟨-, hget⟩ := getElem?_flatMap_of_base hbase (i := i) (d := d) (by
      rw [Writer.at, Array.getD_eq_getD_getElem?] at hd
      rwa [Array.getElem?_toList])
    obtain ⟨instruction, hi, hr⟩ := mapM_getElem? hcode hget
    refine ⟨instruction, ?_, hr⟩
    have hstart : (basesFrom 0 w.buffers.toList).toArray.getD b 0 = base := by
      rw [Array.getD_eq_getD_getElem?, List.getElem?_toArray, hbase]
      rfl
    rw [hstart]
    simpa [Program.ofCode] using hi

/-- The index of the first instruction of a buffer in the finished program. -/
def Writer.base (w : Writer) (b : Nat) : Nat := (basesFrom 0 w.buffers.toList).toArray.getD b 0

/-- The buffer that holds an instruction of the finished program. -/
def Writer.owner (w : Writer) (a : Nat) : Nat :=
  ((List.range w.buffers.size).find? fun b => w.base b ≤ a ∧ a < w.base b + w.sizeOf b).getD 0

theorem Writer.base_lt {w : Writer} {b b' : Nat} (hlt : b < b') (hb : b' < w.buffers.size) :
    w.base b + w.sizeOf b ≤ w.base b' := by
  obtain ⟨base, hbase⟩ := @basesFrom_getElem? 0 w.buffers.toList _
    (by rw [Array.length_toList]; exact Nat.lt_trans hlt hb)
  obtain ⟨base', hbase'⟩ := @basesFrom_getElem? 0 w.buffers.toList _
    (by rwa [Array.length_toList])
  have h := basesFrom_lt hbase hbase' hlt
  simp only [Writer.base, Writer.sizeOf, Array.getD_eq_getD_getElem?, List.getElem?_toArray, hbase,
    hbase', Option.getD_some]
  rwa [Array.getElem?_toList] at h

theorem Writer.owner_base {w : Writer} {b i : Nat} (hi : i < w.sizeOf b) :
    w.owner (w.base b + i) = b := by
  have hb := Writer.buffer_lt_of_size (Nat.lt_of_le_of_lt (Nat.zero_le _) hi)
  cases hfind : (List.range w.buffers.size).find? fun b' =>
      w.base b' ≤ w.base b + i ∧ w.base b + i < w.base b' + w.sizeOf b' with
  | none =>
    have := List.find?_eq_none.1 hfind b (List.mem_range.2 hb)
    simp only [decide_eq_true_eq, not_and] at this
    exact absurd (Nat.add_lt_add_left hi _) (this (Nat.le_add_right _ _))
  | some b' =>
    have hb' := List.mem_range.1 (List.mem_of_find?_eq_some hfind)
    have hin := List.find?_some hfind
    simp only [decide_eq_true_eq] at hin
    have hself : b' = b := by
      rcases Nat.lt_trichotomy b' b with hlt | heq | hlt
      · have := Writer.base_lt hlt hb
        omega
      · exact heq
      · have := Writer.base_lt hlt hb'
        omega
    rw [Writer.owner, hfind, hself]
    rfl

/-- Where the buffers and labels of a writer that is finished are found. -/
def Writer.link (w : Writer) (program : Program) (environment : Environment) (arity : Nat → Nat) :
    Link where
  program
  environment
  arity
  base := w.base
  size := w.sizeOf
  slots b :=
    match w.at b 0 with
    | some ⟨_, .int n⟩ => n.toNat
    | _ => 0
  count := w.buffers.size
  owner := w.owner
  target l := (w.labels.get? l).map fun pt => w.base pt.buffer + pt.position

/-- The finished program keeps all that was written. -/
theorem finish_kept {w : Writer} {program : Program} {environment : Environment}
    {arity : Nat → Nat} (h : w.finish = .ok program) :
    Kept (w.link program environment arity) w.size w := by
  -- every draft of every buffer stands at its place, with its label resolved
  have hsettled : ∀ b i d, w.at b i = some d →
      ∃ d', (w.link program environment arity).Settled b i d d' := fun b i d hd => by
    obtain ⟨instruction, hat, hresolve⟩ := Writer.finish_getElem? h hd
    obtain ⟨op, x⟩ := d
    have hdraft : instruction = ⟨.known op, (w.link program environment arity).operand x⟩ ∧
        ∀ l, x = .label l → ∃ t, (w.link program environment arity).target l = some t := by
      cases x with
      | label l =>
        simp only [Draft.resolve] at hresolve
        cases hl : w.labels.get? l with
        | none =>
          rw [hl] at hresolve
          cases hresolve
        | some pt =>
          rw [hl] at hresolve
          have ht : (w.link program environment arity).target l =
              some (w.base pt.buffer + pt.position) := by
            simp [Writer.link, hl]
          refine ⟨?_, fun m hm => ?_⟩
          · rw [Link.operand, ht]
            exact (Except.ok.inj hresolve).symm
          · rw [← Operand.label.inj hm, ht]
            exact ⟨_, rfl⟩
      | _ => exact ⟨(Except.ok.inj hresolve).symm, by rintro _ ⟨⟩⟩
    obtain ⟨rfl, hbound⟩ := hdraft
    refine ⟨_, .same, hat, fun l hl => hbound l hl, fun n hi hn => ?_,
      Writer.owner_base (Writer.at_lt hd)⟩
    subst hi
    simp only [Writer.link, hd, hn]
    exact (Int.toNat_natCast n).symm
  refine ⟨fun i _ d hd => hsettled _ i d hd, fun d l hd _ => absurd (Writer.at_lt hd) (Nat.lt_irrefl _),
    fun b _ _ i d hd => hsettled b i d hd, fun _ _ _ => rfl, fun l pt _ hl t ht => ?_,
    fun l m hl t ht => ?_⟩
  · rcases hl.place with ⟨hb, -⟩ | ⟨hb, -⟩
    · simp only [Writer.link, hb, Option.map_some, Option.some.injEq] at ht
      exact ht.symm
    · simp [Writer.link, hb] at ht
  · cases hb : w.labels.get? l with
    | none => simp [Writer.link, hb] at ht
    | some pt =>
      obtain ⟨h0, hne, hlt, harity⟩ := hl.bound pt hb
      simp only [Writer.link, hb, Option.map_some, Option.some.injEq, h0] at ht
      exact ⟨pt.buffer, hne, hlt, harity, ht⟩

theorem except_bind_eq_ok {α β ε : Type} {x : Except ε α} {f : α → β} {b : β}
    (h : (do return f (← x) : Except ε β) = .ok b) : ∃ a, x = .ok a ∧ b = f a := by
  cases x with
  | error e => cases h
  | ok a => exact ⟨a, rfl, (Except.ok.inj h).symm⟩

/-- Every program that compiles was written, and consists of the code of its tree. -/
theorem written_of_compile {setting : Setting} {body : List Stmt} {program : Program}
    (hs : SteadyProgram body) (h : compileWith setting body = .ok program) :
    ∃ w, Write.program setting body .empty = .ok ((), w) ∧ w.finish = .ok program ∧
      ProgramCode (w.link program setting.environment (aritiesOf body)).layout body := by
  obtain ⟨w, hw, hfinish⟩ : ∃ w, Write.program setting body .empty = .ok ((), w) ∧
      w.finish = .ok program := by
    unfold compileWith at h
    cases hrun : (Write.program setting body).run .empty with
    | error e =>
      rw [hrun] at h
      cases h
    | ok p =>
      rw [hrun] at h
      exact ⟨p.2, hrun, h⟩
  have hcode := program_written (K := w.link program setting.environment (aritiesOf body)) rfl rfl hs hw
  refine ⟨w, hw, hfinish, hcode ?_ ?_ rfl rfl (finish_kept hfinish)⟩
  · unfold Writer.finish at hfinish
    obtain ⟨code, -, rfl⟩ := except_bind_eq_ok hfinish
    rfl
  · show (basesFrom 0 w.buffers.toList).toArray.getD 0 0 = 0
    cases w.buffers.toList <;> rfl

theorem code_of_compile {setting : Setting} {body : List Stmt} {program : Program}
    (hs : SteadyProgram body) (h : compileWith setting body = .ok program) :
    ∃ L : Layout, L.program = program ∧ L.environment = setting.environment ∧ ProgramCode L body := by
  obtain ⟨w, -, -, hcode⟩ := written_of_compile hs h
  exact ⟨_, rfl, rfl, hcode⟩

end StackScript.Assembly
