import StackScript.Proofs.Spelling
import StackScript.Proofs.Subtrees

/-!
# Reading expressions that were printed

The reader turns the tokens of a printed expression back into the expression.

* `Leads`: a reader takes the kinds of the first tokens and goes on as another reader; `Reads`: it gives a
  result.
* `Placed`: an expression is read in the places of a level of precedence.  At the levels of operators that
  associate to the left, and at that of calls, members and indices, it is read as the first operand of
  whatever follows; at the other levels nothing may follow that would continue it (`Stops`).
* `Placed.lower`: what is read at a level is read at all looser ones.
* `Expr.told`: every expression that can be printed is read at its own level.

Depths are counted against the number of tokens: reading `n` tokens as an expression takes a depth of
at most `30 * n + 13`.
-/

namespace StackScript.Syntax

/-! ### Readers and the kinds of tokens -/

/-- The kinds of the tokens still to be read. -/
def TokenStream.kinds (s : TokenStream) : List TokenKind := s.rest.map (·.kind)

/-- The kind of the first token; behind the last one, the end of the input. -/
def nextKind (ts : List TokenKind) : TokenKind := ts.head?.getD .endOfInput

@[simp] theorem nextKind_cons (t : TokenKind) (ts : List TokenKind) : nextKind (t :: ts) = t := rfl

theorem TokenStream.kind_current (s : TokenStream) : s.current.kind = nextKind s.kinds := by
  obtain ⟨rest, stop⟩ := s
  cases rest <;> rfl

theorem TokenStream.kinds_advance (s : TokenStream) : s.advance.kinds = s.kinds.tail := by
  obtain ⟨rest, stop⟩ := s
  cases rest <;> rfl

/-- In front of tokens of the kinds `ts` and then `rest`, the reader `p` takes `ts` and goes on as `q`. -/
def Leads {α : Type} (p : Parse α) (ts : List TokenKind) (q : Parse α) (rest : List TokenKind) : Prop :=
  ∀ s : TokenStream, s.kinds = ts ++ rest → ∃ s', p.run s = q.run s' ∧ s'.kinds = rest

/-- The reader takes tokens of the kinds `ts` in front of `rest`, and gives `a`. -/
abbrev Reads {α : Type} (p : Parse α) (ts : List TokenKind) (a : α) (rest : List TokenKind) : Prop :=
  Leads p ts (pure a) rest

namespace Leads

variable {α β : Type} {p p' p'' : Parse α} {q : Parse β} {a : α} {m : Mark} {s : String} {t : TokenKind}
  {ts us rest : List TokenKind}

theorem refl (p : Parse α) : Leads p [] p rest := fun s hs => ⟨s, rfl, hs⟩

theorem trans (h : Leads p ts p' (us ++ rest)) (h' : Leads p' us p'' rest) : Leads p (ts ++ us) p'' rest := by
  intro s hs
  obtain ⟨s', hrun, hs'⟩ := h s (by rw [hs, List.append_assoc])
  obtain ⟨s'', hrun', hs''⟩ := h' s' hs'
  exact ⟨s'', hrun.trans hrun', hs''⟩

theorem bind {f : α → Parse β} (hp : Reads p ts a (us ++ rest)) (hf : Leads (f a) us q rest) :
    Leads (p >>= f) (ts ++ us) q rest := by
  intro s hs
  obtain ⟨s', hrun, hs'⟩ := hp s (by rw [hs, List.append_assoc])
  obtain ⟨s'', hrun', hs''⟩ := hf s' hs'
  refine ⟨s'', ?_, hs''⟩
  show EStateM.bind p f s = _
  have hp' : p s = .ok a s' := hrun
  rw [EStateM.bind, hp']
  exact hrun'

/-- A reader that takes no token. -/
theorem bind_nil {f : α → Parse β} (hp : Reads p [] a (us ++ rest)) (hf : Leads (f a) us q rest) :
    Leads (p >>= f) us q rest := hp.bind hf

/-- What follows reads no more. -/
theorem bind_last {f : α → Parse β} (hp : Reads p ts a rest) (hf : Leads (f a) [] q rest) :
    Leads (p >>= f) ts q rest := by
  have h : Leads (p >>= f) (ts ++ []) q rest := bind hp hf
  rwa [List.append_nil] at h

theorem kind {f : TokenKind → Parse β} (h : Leads (f (nextKind (ts ++ rest))) ts q rest) :
    Leads (Parse.kind >>= f) ts q rest := by
  intro s hs
  rw [← hs, ← s.kind_current] at h
  exact h s hs

theorem get {f : TokenStream → Parse β} (h : ∀ s, s.kinds = ts ++ rest → Leads (f s) ts q rest) :
    Leads (get >>= f) ts q rest := fun s hs => h s hs s hs

theorem sees {f : Bool → Parse β} (h : Leads (f (nextKind (ts ++ rest) == .mark m)) ts q rest) :
    Leads (Parse.sees m >>= f) ts q rest := by
  intro s hs
  rw [← hs, ← s.kind_current] at h
  exact h s hs

theorem atEnd {f : Bool → Parse β} (h : Leads (f (nextKind (ts ++ rest) == .endOfInput)) ts q rest) :
    Leads (Parse.atEnd >>= f) ts q rest := by
  intro s hs
  rw [← hs, ← s.kind_current] at h
  exact h s hs

theorem advance {f : Unit → Parse β} (h : Leads (f ()) ts q rest) :
    Leads (Parse.advance >>= f) (t :: ts) q rest := by
  intro s hs
  refine h s.advance ?_
  rw [s.kinds_advance, hs]
  rfl

theorem advance_only (t : TokenKind) : Reads Parse.advance [t] () rest := by
  intro s hs
  refine ⟨s.advance, rfl, ?_⟩
  rw [s.kinds_advance, hs]
  rfl

theorem expect_only (m : Mark) : Reads (Parse.expect m) [.mark m] () rest := by
  unfold Parse.expect
  refine sees ?_
  rw [List.singleton_append, nextKind_cons, if_pos (beq_self_eq_true _)]
  exact advance_only _

theorem expect {f : Unit → Parse β} (h : Leads (f ()) ts q rest) :
    Leads (Parse.expect m >>= f) (.mark m :: ts) q rest := (expect_only m).bind h

theorem accept {f : Bool → Parse β} (h : Leads (f true) ts q rest) :
    Leads (Parse.accept m >>= f) (.mark m :: ts) q rest := by
  have haccept : Reads (Parse.accept m) [.mark m] true (ts ++ rest) := by
    unfold Parse.accept
    refine sees ?_
    rw [List.singleton_append, nextKind_cons, if_pos (beq_self_eq_true _)]
    exact advance (refl _)
  exact haccept.bind h

theorem accept_other {f : Bool → Parse β} (hne : nextKind (ts ++ rest) ≠ .mark m)
    (h : Leads (f false) ts q rest) : Leads (Parse.accept m >>= f) ts q rest := by
  have haccept : Reads (Parse.accept m) [] false (ts ++ rest) := by
    unfold Parse.accept
    refine sees ?_
    rw [if_neg (by simpa using hne)]
    exact refl _
  exact haccept.bind_nil h

theorem identifier {f : String → Parse β} (h : Leads (f s) ts q rest) :
    Leads (Parse.identifier >>= f) (.name s :: ts) q rest := by
  have hidentifier : Reads Parse.identifier [.name s] s (ts ++ rest) := by
    unfold Parse.identifier
    exact kind (advance (refl _))
  exact hidentifier.bind h

end Leads

/-- Reads in this way at all depths from a bound on. -/
def ReadsFrom {α : Type} (bound : Nat) (p : Nat → Parse α) (ts : List TokenKind) (a : α)
    (rest : List TokenKind) : Prop :=
  ∀ depth, bound ≤ depth → Reads (p depth) ts a rest

/-- Leads in this way at all depths from a bound on, to a depth that is less by less than the bound. -/
def LeadsFrom {α : Type} (bound : Nat) (p : Nat → Parse α) (ts : List TokenKind) (q : Nat → Parse α)
    (rest : List TokenKind) : Prop :=
  ∀ depth, bound ≤ depth → ∃ depth', depth < depth' + bound ∧ Leads (p depth) ts (q depth') rest

section Depths

variable {α : Type} {bound bound' : Nat} {p q r : Nat → Parse α} {ts us rest : List TokenKind} {a : α}

theorem ReadsFrom.of_succ (hpos : 0 < bound)
    (h : ∀ depth, bound ≤ depth + 1 → Reads (p (depth + 1)) ts a rest) : ReadsFrom bound p ts a rest := by
  intro depth hdepth
  obtain ⟨depth, rfl⟩ := Nat.exists_eq_add_one_of_ne_zero (by omega : depth ≠ 0)
  exact h depth hdepth

theorem ReadsFrom.mono (h : ReadsFrom bound p ts a rest) (hle : bound ≤ bound') :
    ReadsFrom bound' p ts a rest := fun depth hdepth => h depth (hle.trans hdepth)

theorem LeadsFrom.of_succ (hpos : 0 < bound)
    (h : ∀ depth, bound ≤ depth + 1 →
      ∃ depth', depth + 1 < depth' + bound ∧ Leads (p (depth + 1)) ts (q depth') rest) :
    LeadsFrom bound p ts q rest := by
  intro depth hdepth
  obtain ⟨depth, rfl⟩ := Nat.exists_eq_add_one_of_ne_zero (by omega : depth ≠ 0)
  exact h depth hdepth

theorem LeadsFrom.mono (h : LeadsFrom bound p ts q rest) (hle : bound ≤ bound') :
    LeadsFrom bound' p ts q rest := by
  intro depth hdepth
  obtain ⟨depth', hdepth', hleads⟩ := h depth (hle.trans hdepth)
  exact ⟨depth', by omega, hleads⟩

theorem LeadsFrom.trans (h : LeadsFrom bound p ts q (us ++ rest)) (h' : LeadsFrom bound' q us r rest) :
    LeadsFrom (bound + bound') p (ts ++ us) r rest := by
  intro depth hdepth
  obtain ⟨depth', hle, hleads⟩ := h depth (by omega)
  obtain ⟨depth'', hle', hleads'⟩ := h' depth' (by omega)
  exact ⟨depth'', by omega, hleads.trans hleads'⟩

/-- What goes on to a reader of nothing has read all. -/
theorem LeadsFrom.reads (h : LeadsFrom bound p ts q rest) (hq : ReadsFrom 1 q [] a rest) :
    ReadsFrom bound p ts a rest := by
  intro depth hdepth
  obtain ⟨depth', hle, hleads⟩ := h depth hdepth
  have hreads : Reads (p depth) (ts ++ []) a rest := hleads.trans (hq depth' (by omega))
  rwa [List.append_nil] at hreads

end Depths

/-! ### What continues an expression -/

/-- The level at which a mark continues an expression that stands in front of it. -/
def Mark.binds? : Mark → Option Nat
  | leftParen | dot | leftBracket => some 11
  | increment | decrement => some 10
  | power => some 9
  | star | slash | percent => some 7
  | plus | minus => some 6
  | less | lessEqual | greater | greaterEqual => some 5
  | equal | notEqual => some 4
  | both => some 3
  | either => some 2
  | question => some 1
  | assign | plusAssign | minusAssign | starAssign | slashAssign | percentAssign | powerAssign => some 0
  | _ => none

/-- Nothing follows that continues an expression at this level or a tighter one. -/
def Stops (level : Nat) (rest : List TokenKind) : Prop :=
  ∀ m l, nextKind rest = .mark m → m.binds? = some l → l < level

namespace Stops

variable {level : Nat} {rest : List TokenKind} {m : Mark} {l : Nat}

theorem mono {level' : Nat} (h : Stops level rest) (hle : level ≤ level') : Stops level' rest :=
  fun m l hm hl => Nat.lt_of_lt_of_le (h m l hm hl) hle

theorem ne (h : Stops level rest) (hm : m.binds? = some l) (hl : level ≤ l) :
    nextKind rest ≠ .mark m := fun hn => absurd (h m l hn hm) (Nat.not_lt.2 hl)

/-- A mark that continues no expression, or only a looser one. -/
theorem of_mark {ts : List TokenKind} (hm : ∀ l, m.binds? = some l → l < level) :
    Stops level (.mark m :: ts) := by
  intro m' l hm' hl
  obtain rfl := TokenKind.mark.inj hm'
  exact hm l hl

theorem assigns (h : Stops 0 rest) : AssignOp.ofKind? (nextKind rest) = none := by
  unfold AssignOp.ofKind?
  split
  all_goals first
    | rfl
    | next hn => exact absurd (h _ 0 hn rfl) (Nat.not_lt_zero 0)

theorem after (h : Stops 10 rest) : UnaryOp.afterOfKind? (nextKind rest) = none := by
  unfold UnaryOp.afterOfKind?
  split
  · next hn => exact absurd (h _ 10 hn rfl) (Nat.lt_irrefl _)
  · next hn => exact absurd (h _ 10 hn rfl) (Nat.lt_irrefl _)
  · rfl

/-- An operator of a level is taken as one. -/
theorem binary (h : Stops (level + 2) rest) :
    (BinaryOp.ofKind? (nextKind rest)).filter (fun op => op.level == level) = none := by
  rw [Option.filter_eq_none_iff]
  intro op hop
  have hmark : ∃ m, nextKind rest = .mark m ∧ m.binds? = some (op.level + 2) := by
    unfold BinaryOp.ofKind? at hop
    split at hop
    all_goals first
      | (obtain rfl := Option.some.inj hop; next hn => exact ⟨_, hn, rfl⟩)
      | cases hop
  obtain ⟨m, hm, hl⟩ := hmark
  have := h m _ hm hl
  simp
  omega

/-- No mark binds at the level of operators in front of an operand. -/
theorem before (h : Stops 9 rest) : Stops 8 rest := by
  intro m l hm hl
  have hlt := h m l hm hl
  have hne : l ≠ 8 := by
    rintro rfl
    cases m <;> cases hl
  omega

end Stops

/-! ### Operators and their tokens -/

theorem BinaryOp.ofKind?_kind (hop : op ≠ .pow) : BinaryOp.ofKind? op.kind = some op := by
  cases op <;> first | rfl | exact absurd rfl hop

theorem UnaryOp.afterOfKind?_kind {op : UnaryOp} (hop : op = .increment ∨ op = .decrement) :
    UnaryOp.afterOfKind? op.kind = some op := by
  rcases hop with rfl | rfl <;> rfl

theorem UnaryOp.beforeOfKind?_kind (op : UnaryOp) : UnaryOp.beforeOfKind? op.kind = some op := by
  cases op <;> rfl

theorem AssignOp.ofKind?_kind (op : AssignOp) : AssignOp.ofKind? op.kind = some op := by
  cases op <;> rfl

theorem Expr.level_le (e : Expr) : e.level ≤ 12 := by
  cases e with
  | binary op left right => cases op <;> exact Nat.le_of_ble_eq_true rfl
  | unary op side operand => cases side <;> exact Nat.le_of_ble_eq_true rfl
  | _ => exact Nat.le_of_ble_eq_true rfl

theorem BinaryOp.level_lt {op : BinaryOp} (hop : op ≠ .pow) : op.level < 6 := by
  cases op <;> first | decide | exact absurd rfl hop

/-- An operator ends its left operand. -/
theorem BinaryOp.stops {op : BinaryOp} (hop : op ≠ .pow) (ts : List TokenKind) :
    Stops (op.level + 3) (op.kind :: ts) := by
  cases op <;> first
    | exact absurd rfl hop
    | exact .of_mark fun l hl => by cases hl; decide

theorem Stops.of_close {close : Mark} (hclose : close.binds? = none) (ts : List TokenKind) :
    Stops 0 (.mark close :: ts) := .of_mark fun l hl => by rw [hclose] at hl; cases hl

/-- What stands behind an item of a list: nothing, or a comma and more. -/
theorem length_le_separated {β : Type} {more : List β} (hts : more = [] → ts = []) :
    ts.length ≤ (if more.isEmpty then [] else TokenKind.mark .comma :: ts).length := by
  cases more with
  | nil =>
    rw [hts rfl]
    exact Nat.zero_le _
  | cons b more => exact Nat.le_succ _

/-- A comma, unless the closing mark is there already. -/
theorem Leads.comma {α β : Type} {f : Unit → Parse α} {q : Parse α} {close : Mark} {more : List β}
    (hclose : close ≠ .comma) (hts : more = [] → ts = [])
    (h : Leads (f ()) (ts ++ [.mark close]) q rest) :
    Leads (do if !(← Parse.sees close) then do let r ← Parse.expect .comma; f r else f ())
      ((if more.isEmpty then [] else .mark .comma :: ts) ++ [.mark close]) q rest := by
  cases more with
  | nil =>
    obtain rfl := hts rfl
    have hsees : (nextKind ([.mark close] ++ rest) == .mark close) = true := beq_self_eq_true _
    refine .sees ?_
    rw [List.isEmpty_nil, if_pos rfl, List.nil_append, hsees]
    exact h
  | cons b more =>
    have hsees : (nextKind (.mark .comma :: (ts ++ [.mark close]) ++ rest) == .mark close) = false := by
      rw [beq_eq_false_iff_ne]
      exact fun heq => hclose (TokenKind.mark.inj heq).symm
    refine .sees ?_
    rw [List.isEmpty_cons, if_neg Bool.false_ne_true, List.cons_append, hsees]
    exact .expect h

/-! ### Readers that refuse -/

/-- The reader fails in front of these tokens. -/
def Refuses {α : Type} (p : Parse α) (ts : List TokenKind) : Prop :=
  ∀ s : TokenStream, s.kinds = ts → ∃ err s', p.run s = .error err s'

namespace Refuses

variable {α β : Type} {p : Parse α} {a : α} {ts us : List TokenKind}

theorem bind {f : α → Parse β} (h : Refuses p ts) : Refuses (p >>= f) ts := by
  intro s hs
  obtain ⟨err, s', hrun⟩ := h s hs
  have hp : p s = .error err s' := hrun
  refine ⟨err, s', ?_⟩
  show EStateM.bind p f s = _
  rw [EStateM.bind, hp]

theorem kind {f : TokenKind → Parse β} (h : Refuses (f (nextKind ts)) ts) : Refuses (Parse.kind >>= f) ts := by
  rintro s rfl
  rw [← s.kind_current] at h
  exact h s rfl

theorem get {f : TokenStream → Parse β} (h : ∀ s, s.kinds = ts → Refuses (f s) ts) :
    Refuses (get >>= f) ts := fun s hs => h s hs s hs

theorem fail (fault : SyntaxFault) : Refuses (Parse.fail fault : Parse α) ts := fun _ _ => ⟨_, _, rfl⟩

theorem refuse (wanted : Wanted) : Refuses (Parse.refuse wanted : Parse α) ts := by
  unfold Parse.refuse
  refine kind ?_
  split <;> exact fail _

/-- What is refused is not read. -/
theorem not_reads {rest : List TokenKind} (h : Refuses p (ts ++ rest)) : ¬ Reads p ts a rest := by
  intro hreads
  have hkinds : (TokenStream.mk ((ts ++ rest).map fun k => ⟨k, ⟨0, 0⟩⟩) 0).kinds = ts ++ rest := by
    simp only [TokenStream.kinds, List.map_map]
    exact List.map_id _
  obtain ⟨err, s', herror⟩ := h _ hkinds
  obtain ⟨s'', hrun, -⟩ := hreads _ hkinds
  cases herror.symm.trans hrun

end Refuses

def TokenKind.startsExpr : TokenKind → Bool
  | .mark m => m == .leftParen || m == .leftBracket || m == .hashBrace || m == .leftBrace ||
      (UnaryOp.beforeOfKind? (.mark m)).isSome
  | .keyword k => k.isLiteral
  | .endOfInput | .flawed _ => false
  | _ => true

theorem TokenKind.startsExpr_of_before {k : TokenKind} {op : UnaryOp} (h : UnaryOp.beforeOfKind? k = some op) :
    k.startsExpr = true := by
  unfold UnaryOp.beforeOfKind? at h
  split at h
  all_goals first
    | rfl
    | cases h

theorem TokenKind.beq_of_startsExpr {k k' : TokenKind} (h : k.startsExpr = true) (h' : k'.startsExpr = false) :
    (k == k') = false := by
  rw [beq_eq_false_iff_ne]
  rintro rfl
  cases h.symm.trans h'

/-! ### Chains of operators -/

variable [Text.IdentifierChars]

namespace Parse

def operand (depth : Nat) : Parse Expr := do
  let first ← primary depth
  accessBehind depth first

/-- At most one operator behind an operand that is read already. -/
def operatorBehind (operand : Expr) : Parse Expr := do
  match UnaryOp.afterOfKind? (← kind) with
  | some op => advance; return .unary op .after operand
  | none => return operand

theorem unaryAfter_eq (depth : Nat) : unaryAfter (depth + 1) = operand depth >>= operatorBehind := by
  rw [unaryAfter, operand, bind_assoc]
  rfl

theorem binaryFrom_last (depth : Nat) : binaryFrom (depth + 1) 6 = unaryBefore depth := by
  rw [binaryFrom]
  rfl

theorem binaryFrom_chain (depth : Nat) {level : Nat} (h : level < 6) :
    binaryFrom (depth + 1) level = binaryFrom depth (level + 1) >>= binaryBehind depth level := by
  rw [binaryFrom, if_pos (show level < BinaryOp.level .pow from h)]

end Parse

open Parse

section Chains

variable {bound level : Nat} {left right e : Expr} {op : BinaryOp} {ts us rest : List TokenKind}

/-- Where no operator of the level follows, the chain ends. -/
theorem binaryBehind_stop (h : Stops (level + 2) rest) :
    ReadsFrom 1 (fun depth => binaryBehind depth level e) [] e rest := by
  refine .of_succ Nat.one_pos fun depth _ => ?_
  show Reads (binaryBehind (depth + 1) level e) _ _ _
  rw [binaryBehind]
  refine .kind ?_
  rw [List.nil_append, h.binary]
  exact .refl _

/-- One operator of a chain. -/
theorem binaryBehind_step (hop : op ≠ .pow) (hlevel : op.level = level)
    (h : ReadsFrom bound (fun depth => binaryFrom depth (level + 1)) ts right rest) :
    LeadsFrom (bound + 2) (fun depth => binaryBehind depth level left) (op.kind :: ts)
      (fun depth => binaryBehind depth level (.binary op left right)) rest := by
  refine .of_succ (by omega) fun depth hdepth => ⟨depth, by omega, ?_⟩
  show Leads (binaryBehind (depth + 1) level left) _ _ _
  rw [binaryBehind]
  refine .kind ?_
  rw [List.cons_append, nextKind_cons, BinaryOp.ofKind?_kind hop, Option.filter_some,
    if_pos (by simpa using hlevel)]
  exact .advance (.bind_last (h depth (by omega)) (.refl _))

/-- Where no bracket and no point follows, the chain ends. -/
theorem accessBehind_stop (h : Stops 11 rest) :
    ReadsFrom 1 (fun depth => accessBehind depth e) [] e rest := by
  refine .of_succ Nat.one_pos fun depth _ => ?_
  show Reads (accessBehind (depth + 1) e) _ _ _
  rw [accessBehind]
  refine .kind ?_
  rw [List.nil_append]
  split
  · next hk => exact absurd hk (h.ne rfl (Nat.le_refl 11))
  · next hk => exact absurd hk (h.ne rfl (Nat.le_refl 11))
  · next hk => exact absurd hk (h.ne rfl (Nat.le_refl 11))
  · exact .refl _

theorem accessBehind_member (field : String) :
    LeadsFrom 2 (fun depth => accessBehind depth e) [.mark .dot, .name field]
      (fun depth => accessBehind depth (.member e field)) rest := by
  refine .of_succ (by omega) fun depth hdepth => ⟨depth, by omega, ?_⟩
  show Leads (accessBehind (depth + 1) e) _ _ _
  rw [accessBehind]
  exact .kind (.advance (.identifier (.refl _)))

theorem accessBehind_call {arguments : List Expr}
    (h : ReadsFrom bound (fun depth => listUntil depth .rightParen) ts arguments rest) :
    LeadsFrom (bound + 2) (fun depth => accessBehind depth e) (.mark .leftParen :: ts)
      (fun depth => accessBehind depth (.call e arguments)) rest := by
  refine .of_succ (by omega) fun depth hdepth => ⟨depth, by omega, ?_⟩
  show Leads (accessBehind (depth + 1) e) _ _ _
  rw [accessBehind]
  exact .kind (.advance (.bind_last (h depth (by omega)) (.refl _)))

theorem accessBehind_index {indices : List Expr} (hne : indices.isEmpty = false)
    (h : ReadsFrom bound (fun depth => listUntil depth .rightBracket) ts indices rest) :
    LeadsFrom (bound + 2) (fun depth => accessBehind depth e) (.mark .leftBracket :: ts)
      (fun depth => accessBehind depth (.index e indices)) rest := by
  refine .of_succ (by omega) fun depth hdepth => ⟨depth, by omega, ?_⟩
  show Leads (accessBehind (depth + 1) e) _ _ _
  rw [accessBehind]
  refine .kind (.advance (.bind_last (h depth (by omega)) ?_))
  rw [hne]
  exact .refl _

end Chains

/-! ### Operators in front are no operands -/

section Starts

variable {ts : List TokenKind} {op : UnaryOp}

theorem primary_refuses (h : (nextKind ts).startsExpr = false ∨ UnaryOp.beforeOfKind? (nextKind ts) = some op)
    (depth : Nat) : Refuses (primary depth) ts := by
  cases depth with
  | zero => exact .refuse _
  | succ depth =>
    rw [primary]
    refine .get fun s hs => ?_
    dsimp only
    rw [s.kind_current, hs]
    cases hk : nextKind ts with
    | mark m =>
      cases m <;> first
        | exact .refuse _
        | simp [hk, TokenKind.startsExpr, UnaryOp.beforeOfKind?] at h
    | keyword k =>
      cases k <;> first
        | exact .refuse _
        | simp [hk, TokenKind.startsExpr, Keyword.isLiteral, UnaryOp.beforeOfKind?] at h
    | endOfInput => exact .refuse _
    | flawed f => exact .refuse _
    | _ => simp [hk, TokenKind.startsExpr, UnaryOp.beforeOfKind?] at h

theorem power_refuses (h : (nextKind ts).startsExpr = false ∨ UnaryOp.beforeOfKind? (nextKind ts) = some op)
    (depth : Nat) : Refuses (power depth) ts := by
  obtain _ | _ | depth := depth
  · exact .refuse _
  · exact (Refuses.refuse _).bind
  · rw [power, unaryAfter]
    exact (primary_refuses h depth).bind.bind

theorem binaryFrom_refuses (h : (nextKind ts).startsExpr = false) (depth level : Nat) :
    Refuses (binaryFrom depth level) ts := by
  induction depth generalizing level with
  | zero => exact .refuse _
  | succ depth ih =>
    rw [binaryFrom]
    split
    · exact (ih _).bind
    · cases depth with
      | zero => exact .refuse _
      | succ depth =>
        rw [unaryBefore]
        refine .kind ?_
        cases hop : UnaryOp.beforeOfKind? (nextKind ts) with
        | none =>
          have hstart : (nextKind ts).startsExpr = false ∨ UnaryOp.beforeOfKind? (nextKind ts) = some .not :=
            .inl h
          exact power_refuses hstart depth
        | some op =>
          rw [TokenKind.startsExpr_of_before hop] at h
          cases h

/-- Nothing is read as an expression that does not start like one. -/
theorem expression_refuses (h : (nextKind ts).startsExpr = false) (depth : Nat) :
    Refuses (expression depth) ts := by
  obtain _ | _ | depth := depth
  · exact .refuse _
  · exact (Refuses.refuse _).bind
  · rw [expression, conditional]
    exact (binaryFrom_refuses h _ _).bind.bind

end Starts

/-! ### Places -/

/-- The tokens are read as the expression in places for expressions of at least this level.  The bound
of the depth is `n` for an operand, and grows by one for each function between the two. -/
def Placed (n : Nat) (ts : List TokenKind) (e : Expr) : Nat → Prop
  | 0 => ∀ rest, Stops 0 rest → ReadsFrom (n + 13) expression ts e rest
  | 1 => ∀ rest, Stops 0 rest → ReadsFrom (n + 12) conditional ts e rest
  | 8 => ∀ rest, Stops 8 rest → ReadsFrom (n + 4) unaryBefore ts e rest
  | 9 => ∀ rest, Stops 9 rest → ReadsFrom (n + 3) power ts e rest
  | 10 => ∀ rest, Stops 10 rest → ReadsFrom (n + 2) unaryAfter ts e rest
  | 11 => ∀ rest, LeadsFrom (n + 1) operand ts (fun depth => accessBehind depth e) rest
  | 12 => ∀ rest, ReadsFrom n primary ts e rest
  | level => ∀ rest, Stops (level + 1) rest →
      LeadsFrom (n + (13 - level)) (fun depth => binaryFrom depth (level - 2)) ts
        (fun depth => binaryBehind depth (level - 2) e) rest

namespace Placed

variable {n level : Nat} {ts rest : List TokenKind} {e : Expr}

theorem choice (h : Placed n ts e 1) : Placed n ts e 0 := by
  intro rest hrest
  refine .of_succ (by omega) fun depth hdepth => ?_
  rw [expression]
  refine .bind_last (h rest hrest depth (by omega)) (.kind ?_)
  rw [List.nil_append, hrest.assigns]
  exact .refl _

/-- At the levels of the operators that associate to the left. -/
theorem leads {k : Nat} (hk : k < 6) (h : Placed n ts e (k + 2)) (hrest : Stops (k + 3) rest) :
    LeadsFrom (n + (11 - k)) (fun depth => binaryFrom depth k) ts (fun depth => binaryBehind depth k e) rest := by
  obtain _ | _ | _ | _ | _ | _ | k := k
  all_goals first | exact h rest hrest | omega

theorem of_leads {k : Nat} (hk : k < 6)
    (h : ∀ rest, Stops (k + 3) rest → LeadsFrom (n + (11 - k)) (fun depth => binaryFrom depth k) ts
      (fun depth => binaryBehind depth k e) rest) : Placed n ts e (k + 2) := by
  obtain _ | _ | _ | _ | _ | _ | k := k
  all_goals first | exact h | omega

theorem chain_reads {k : Nat} (hk : k < 6) (h : Placed n ts e (k + 2)) (hrest : Stops (k + 2) rest) :
    ReadsFrom (n + (11 - k)) (fun depth => binaryFrom depth k) ts e rest :=
  (h.leads hk (hrest.mono (Nat.le_succ _))).reads (binaryBehind_stop hrest)

/-- An expression that is no choice, in front of an assignment at most. -/
theorem test_reads (h : Placed n ts e 2) (hrest : Stops 1 rest) : ReadsFrom (n + 12) conditional ts e rest := by
  refine .of_succ (by omega) fun depth hdepth => ?_
  rw [conditional]
  have htest := h.chain_reads (by decide) (hrest.mono (by decide)) depth (by omega)
  exact .bind_last htest (.accept_other (hrest.ne rfl (by decide)) (.refl _))

theorem chain (h : Placed n ts e 2) : Placed n ts e 1 := fun _ hrest => h.test_reads (hrest.mono (by decide))

/-- What is read one level tighter, those operators in front included, is read as an operand of the level. -/
theorem operand_reads {k : Nat} (hk : k < 6) (h : Placed n ts e (k + 3)) (hrest : Stops (k + 3) rest) :
    ReadsFrom (n + (10 - k)) (fun depth => binaryFrom depth (k + 1)) ts e rest := by
  by_cases hlast : k = 5
  · subst hlast
    refine .of_succ (by omega) fun depth hdepth => ?_
    show Reads (binaryFrom (depth + 1) 6) _ _ _
    rw [binaryFrom_last]
    exact h rest hrest depth (by omega)
  · exact (h.chain_reads (k := k + 1) (by omega) hrest).mono (by omega)

/-- From one of these levels to the next looser one. -/
theorem next {k : Nat} (hk : k < 6) (h : Placed n ts e (k + 3)) : Placed n ts e (k + 2) := by
  refine .of_leads (by omega) fun rest hrest => ?_
  refine .of_succ (by omega) fun depth hdepth => ⟨depth, by omega, ?_⟩
  show Leads (binaryFrom (depth + 1) k) _ _ _
  rw [binaryFrom_chain depth hk]
  exact .bind_last (h.operand_reads hk hrest depth (by omega)) (.refl _)

theorem pow (h : Placed n ts e 9) : Placed n ts e 8 := by
  intro rest hrest
  refine .of_succ (by omega) fun depth hdepth => ?_
  have hpower := h rest (hrest.mono (Nat.le_succ _)) depth (by omega)
  rw [unaryBefore]
  refine .kind ?_
  -- No operator stands in front, for a power would not be read then.
  cases hop : UnaryOp.beforeOfKind? (nextKind (ts ++ rest)) with
  | none => exact hpower
  | some op => exact absurd hpower (power_refuses (.inr hop) depth).not_reads

theorem after (h : Placed n ts e 10) : Placed n ts e 9 := by
  intro rest hrest
  refine .of_succ (by omega) fun depth hdepth => ?_
  rw [power]
  exact .bind_last (h rest (hrest.mono (Nat.le_succ _)) depth (by omega))
    (.accept_other (hrest.ne rfl (Nat.le_refl _)) (.refl _))

theorem access (h : Placed n ts e 11) : Placed n ts e 10 := by
  intro rest hrest
  refine .of_succ (by omega) fun depth hdepth => ?_
  rw [unaryAfter_eq]
  have hoperand := (h rest).reads (accessBehind_stop (hrest.mono (Nat.le_succ _)))
  refine .bind_last (hoperand depth (by omega)) (.kind ?_)
  rw [List.nil_append, hrest.after]
  exact .refl _

theorem operand (h : Placed n ts e 12) : Placed n ts e 11 := fun rest depth hdepth =>
  ⟨depth, by omega, .bind_last (h rest depth (by omega)) (.refl _)⟩

/-- What is read at a level is read at all looser ones. -/
theorem lower {level' : Nat} (h : Placed n ts e level) (hle : level' ≤ level) (hlevel : level ≤ 12) :
    Placed n ts e level' := by
  have hstep : ∀ l, l < 12 → Placed n ts e (l + 1) → Placed n ts e l
    | 0, _ => choice
    | 1, _ => chain
    | 2, _ => next (k := 0) (by decide)
    | 3, _ => next (k := 1) (by decide)
    | 4, _ => next (k := 2) (by decide)
    | 5, _ => next (k := 3) (by decide)
    | 6, _ => next (k := 4) (by decide)
    | 7, _ => next (k := 5) (by decide)
    | 8, _ => pow
    | 9, _ => after
    | 10, _ => access
    | 11, _ => operand
  induction hle with
  | refl => exact h
  | step hle ih => exact ih (hstep _ (by omega) h) (by omega)

theorem mono {n' : Nat} (h : Placed n ts e level) (hn : n ≤ n') (hlevel : level ≤ 12) :
    Placed n' ts e level := by
  match level, hlevel with
  | 0, _ | 1, _ | 2, _ | 3, _ | 4, _ | 5, _ | 6, _ | 7, _ | 8, _ | 9, _ | 10, _ =>
    exact fun rest hrest => (h rest hrest).mono (by omega)
  | 11, _ | 12, _ => exact fun rest => (h rest).mono (by omega)

end Placed

/-! ### Expressions -/

/-- What the reader makes sure of: literals and names are those of tokens, an index expression has an index,
and only some operators stand behind their operand. -/
def Expr.parsed : Expr → Bool
  | .literal v => v.kind.sound
  | .name s => isName s
  | .unary op .after _ => op == .increment || op == .decrement
  | .member _ field => isName field
  | .index _ indices => !indices.isEmpty
  | _ => true

/-- No template and no infinite number: what can be written. -/
def Expr.writable : Expr → Bool
  | .template _ _ => false
  | .literal (.float x) => !x.isInf
  | _ => true

/-- What can be printed and read again. -/
def Expr.printable (e : Expr) : Bool := e.parsed && e.writable

section Exprs

variable {n : Nat} {ts rest : List TokenKind} {e : Expr}

theorem literal_placed (v : Literal) : Placed 1 [v.kind] (.literal v) 12 := by
  intro rest
  refine .of_succ Nat.one_pos fun depth _ => ?_
  rw [primary]
  refine .get fun s hs => ?_
  dsimp only
  rw [s.kind_current, hs]
  cases v with
  | bool b => cases b <;> exact .advance (.refl _)
  | _ => exact .advance (.refl _)

theorem name_placed (s : String) : Placed 1 [.name s] (.name s) 12 := by
  intro rest
  refine .of_succ Nat.one_pos fun depth _ => ?_
  rw [primary]
  refine .get fun s hs => ?_
  dsimp only
  rw [s.kind_current, hs]
  exact .advance (.refl _)

theorem parens_placed (h : Placed n ts e 0) :
    Placed (n + 14) (.mark .leftParen :: (ts ++ [.mark .rightParen])) e 12 := by
  intro rest
  refine .of_succ (by omega) fun depth hdepth => ?_
  rw [primary]
  refine .get fun s hs => ?_
  dsimp only
  rw [s.kind_current, hs]
  refine .advance (.bind (h _ (.of_close rfl _) depth (by omega)) ?_)
  exact .expect (.refl _)

/-- Parentheses put an expression in any place. -/
theorem inPlace_placed {level : Nat} (h : Placed (30 * ts.length) ts e e.level) (hlevel : level ≤ 12) :
    Placed (30 * (inPlace level e ts).length) (inPlace level e ts) e level := by
  unfold inPlace
  split
  · have hparens := parens_placed (h.lower (Nat.zero_le _) e.level_le)
    refine (hparens.mono ?_ (Nat.le_refl _)).lower hlevel (Nat.le_refl _)
    simp only [List.length_cons, List.length_append]
    omega
  · next hle => exact h.lower (Nat.not_lt.1 hle) e.level_le

/-- What is read as an expression starts like one. -/
theorem Placed.starts (h : Placed n ts e 0) (hrest : Stops 0 rest) :
    (nextKind (ts ++ rest)).startsExpr = true := by
  by_contra hne
  exact (expression_refuses (by simpa using hne) _).not_reads (h rest hrest _ (Nat.le_refl _))

theorem unaryBefore_placed (op : UnaryOp) (h : Placed n ts e 8) :
    Placed (n + 1) (op.kind :: ts) (.unary op .before e) 8 := by
  intro rest hrest
  refine .of_succ (by omega) fun depth hdepth => ?_
  rw [unaryBefore]
  refine .kind ?_
  rw [List.cons_append, nextKind_cons, op.beforeOfKind?_kind]
  exact .advance (.bind_last (h rest hrest depth (by omega)) (.refl _))

theorem unaryAfter_placed {op : UnaryOp} (hop : op = .increment ∨ op = .decrement) (h : Placed n ts e 11) :
    Placed n (ts ++ [op.kind]) (.unary op .after e) 10 := by
  intro rest hrest
  refine .of_succ (by omega) fun depth hdepth => ?_
  rw [unaryAfter_eq]
  have hstops : Stops 11 ([op.kind] ++ rest) := by
    rcases hop with rfl | rfl <;> exact .of_mark fun l hl => by cases hl; decide
  refine .bind ((h _).reads (accessBehind_stop hstops) depth (by omega)) (.kind ?_)
  rw [List.singleton_append, nextKind_cons, UnaryOp.afterOfKind?_kind hop]
  exact .advance (.refl _)

theorem binary_placed {op : BinaryOp} (hop : op ≠ .pow) {left right : Expr} {us : List TokenKind} {n' : Nat}
    (hleft : Placed n ts left (op.level + 2)) (hright : Placed n' us right (op.level + 3)) :
    Placed (n + n' + 30) (ts ++ op.kind :: us) (.binary op left right) (op.level + 2) := by
  have hlevel := BinaryOp.level_lt hop
  refine .of_leads hlevel fun rest hrest => ?_
  have hstops : Stops (op.level + 3) (op.kind :: us ++ rest) := BinaryOp.stops hop _
  have hfirst := hleft.leads hlevel hstops
  exact (hfirst.trans (binaryBehind_step hop rfl (hright.operand_reads hlevel hrest))).mono (by omega)

theorem pow_placed {left right : Expr} {us : List TokenKind} {n' : Nat} (hleft : Placed n ts left 10)
    (hright : Placed n' us right 8) :
    Placed (n + n' + 30) (ts ++ BinaryOp.kind .pow :: us) (.binary .pow left right) 9 := by
  intro rest hrest
  refine .of_succ (by omega) fun depth hdepth => ?_
  rw [power]
  have hstops : Stops 10 (BinaryOp.kind .pow :: us ++ rest) := .of_mark fun l hl => by cases hl; decide
  refine .bind (hleft _ hstops depth (by omega)) (.accept ?_)
  exact .bind_last (hright rest hrest.before depth (by omega)) (.refl _)

theorem member_placed (field : String) (h : Placed n ts e 11) :
    Placed (n + 30) (ts ++ [.mark .dot, .name field]) (.member e field) 11 := fun rest =>
  ((h _).trans (accessBehind_member field)).mono (by omega)

theorem call_placed {arguments : List Expr} {us : List TokenKind} {n' : Nat} (h : Placed n ts e 11)
    (hlist : ∀ rest, ReadsFrom n' (fun depth => listUntil depth .rightParen) us arguments rest) :
    Placed (n + n' + 30) (ts ++ .mark .leftParen :: us) (.call e arguments) 11 := fun rest =>
  ((h _).trans (accessBehind_call (hlist rest))).mono (by omega)

theorem index_placed {indices : List Expr} {us : List TokenKind} {n' : Nat} (h : Placed n ts e 11)
    (hne : indices.isEmpty = false)
    (hlist : ∀ rest, ReadsFrom n' (fun depth => listUntil depth .rightBracket) us indices rest) :
    Placed (n + n' + 30) (ts ++ .mark .leftBracket :: us) (.index e indices) 11 := fun rest =>
  ((h _).trans (accessBehind_index hne (hlist rest))).mono (by omega)

theorem assign_placed {op : AssignOp} {value : Expr} {us : List TokenKind} {n' : Nat}
    (htarget : Placed n ts e 2) (hvalue : Placed n' us value 0) :
    Placed (n + n' + 30) (ts ++ op.kind :: us) (.assign op e value) 0 := by
  intro rest hrest
  have hstops : Stops 1 (op.kind :: us ++ rest) := by
    cases op <;> exact .of_mark fun l hl => by cases hl; decide
  refine .of_succ (by omega) fun depth hdepth => ?_
  rw [expression]
  refine .bind (htarget.test_reads hstops depth (by omega)) (.kind ?_)
  rw [List.cons_append, nextKind_cons, op.ofKind?_kind]
  exact .advance (.bind_last (hvalue rest hrest depth (by omega)) (.refl _))

theorem ternary_placed {yes no : Expr} {us vs : List TokenKind} {n' n'' : Nat} (htest : Placed n ts e 2)
    (hyes : Placed n' us yes 0) (hno : Placed n'' vs no 0) :
    Placed (n + n' + n'' + 30) (ts ++ .mark .question :: (us ++ .mark .colon :: vs)) (.ternary e yes no) 1 := by
  intro rest hrest
  refine .of_succ (by omega) fun depth hdepth => ?_
  rw [conditional]
  refine .bind (htest.chain_reads (by decide) ?_ depth (by omega)) (.accept ?_)
  · exact .of_mark fun l hl => by cases hl; decide
  · refine .bind (hyes _ (.of_close rfl _) depth (by omega)) (.expect ?_)
    exact .bind_last (hno rest hrest depth (by omega)) (.refl _)

/-- A list ends at the mark that closes it. -/
theorem listUntil_nil (close : Mark) : ReadsFrom 1 (fun depth => listUntil depth close) [.mark close] [] rest := by
  refine .of_succ Nat.one_pos fun depth _ => ?_
  show Reads (listUntil (depth + 1) close) _ _ _
  rw [listUntil]
  refine .sees (.atEnd ?_)
  rw [List.singleton_append, nextKind_cons, beq_self_eq_true, Bool.true_or, if_pos rfl]
  exact .expect (.refl _)

theorem listUntil_cons {n' bound : Nat} {close : Mark} {es : List Expr} (hclose : close.binds? = none)
    (hcomma : close ≠ .comma) (hexpr : TokenKind.startsExpr (.mark close) = false)
    (h : Placed n ts e 0) {us : List TokenKind} (hus : es = [] → us = [])
    (hlist : ∀ rest, ReadsFrom n' (fun depth => listUntil depth close) (us ++ [.mark close]) es rest)
    (hn : n + 13 < bound) (hn' : n' < bound) :
    ReadsFrom bound (fun depth => listUntil depth close)
      (ts ++ ((if es.isEmpty then [] else .mark .comma :: us) ++ [.mark close])) (e :: es) rest := by
  have hstops : Stops 0 ((if es.isEmpty then [] else .mark .comma :: us) ++ [.mark close] ++ rest) := by
    cases es with
    | nil => exact .of_close hclose _
    | cons e es => exact .of_close rfl _
  have hstarts := h.starts hstops
  rw [← List.append_assoc] at hstarts
  refine .of_succ (by omega) fun depth hdepth => ?_
  show Reads (listUntil (depth + 1) close) _ _ _
  rw [listUntil]
  refine .sees (.atEnd ?_)
  rw [TokenKind.beq_of_startsExpr hstarts hexpr, TokenKind.beq_of_startsExpr hstarts rfl, Bool.or_false,
    if_neg Bool.false_ne_true]
  refine .bind (h _ hstops depth (by omega)) (.comma hcomma hus ?_)
  exact .bind_last (hlist rest depth (by omega)) (.refl _)

theorem fieldsUntil_nil : ReadsFrom 1 fieldsUntil [.mark .rightBrace] [] rest := by
  refine .of_succ Nat.one_pos fun depth _ => ?_
  rw [fieldsUntil]
  exact .sees (.atEnd (.expect (.refl _)))

theorem fieldsUntil_cons {n' bound : Nat} {key : String} {fields : List (String × Expr)} (h : Placed n ts e 0)
    {us : List TokenKind} (hus : fields = [] → us = [])
    (hlist : ∀ rest, ReadsFrom n' fieldsUntil (us ++ [.mark .rightBrace]) fields rest)
    (hn : n + 13 < bound) (hn' : n' < bound) :
    ReadsFrom bound fieldsUntil (.string key :: .mark .colon :: (ts ++
      ((if fields.isEmpty then [] else .mark .comma :: us) ++ [.mark .rightBrace])))
      ((key, e) :: fields) rest := by
  have hstops : Stops 0 ((if fields.isEmpty then [] else .mark .comma :: us) ++ [.mark .rightBrace] ++ rest) := by
    cases fields with
    | nil => exact .of_close rfl _
    | cons f fields => exact .of_close rfl _
  refine .of_succ (by omega) fun depth hdepth => ?_
  rw [fieldsUntil]
  refine .sees (.atEnd (.kind (.bind_nil (a := key) (.refl _) (.advance (.expect ?_)))))
  refine .bind (h _ hstops depth (by omega)) (.comma (by decide) hus ?_)
  exact .bind_last (hlist rest depth (by omega)) (.refl _)

theorem array_placed {items : List Expr}
    (hlist : ∀ rest, ReadsFrom n (fun depth => listUntil depth .rightBracket) ts items rest) :
    Placed (n + 1) (.mark .leftBracket :: ts) (.array items) 12 := by
  intro rest
  refine .of_succ (by omega) fun depth hdepth => ?_
  rw [primary]
  refine .get fun s hs => ?_
  dsimp only
  rw [s.kind_current, hs]
  exact .advance (.bind_last (hlist rest depth (by omega)) (.refl _))

theorem set_placed {items : List Expr}
    (hlist : ∀ rest, ReadsFrom n (fun depth => listUntil depth .rightBrace) ts items rest) :
    Placed (n + 1) (.mark .hashBrace :: ts) (.set items) 12 := by
  intro rest
  refine .of_succ (by omega) fun depth hdepth => ?_
  rw [primary]
  refine .get fun s hs => ?_
  dsimp only
  rw [s.kind_current, hs]
  exact .advance (.bind_last (hlist rest depth (by omega)) (.refl _))

theorem object_placed {fields : List (String × Expr)}
    (hlist : ∀ rest, ReadsFrom n fieldsUntil ts fields rest) :
    Placed (n + 1) (.mark .leftBrace :: ts) (.object fields) 12 := by
  intro rest
  refine .of_succ (by omega) fun depth hdepth => ?_
  rw [primary]
  refine .get fun s hs => ?_
  dsimp only
  rw [s.kind_current, hs]
  exact .advance (.bind_last (hlist rest depth (by omega)) (.refl _))

end Exprs

/-- The expression is read from its tokens at its own level. -/
def Told (e : Expr) : Prop := Placed (30 * (exprTokens e).length) (exprTokens e) e e.level

namespace Told

variable {e left right object : Expr}

theorem inPlace (h : Told e) (level : Nat) (hlevel : level ≤ 12) :
    Placed (30 * (inPlace level e (exprTokens e)).length) (inPlace level e (exprTokens e)) e level :=
  inPlace_placed h hlevel

theorem free (h : Told e) : Placed (30 * (exprTokens e).length) (exprTokens e) e 0 :=
  h.lower (Nat.zero_le _) e.level_le

theorem length_pos (h : Told e) : 0 < (exprTokens e).length := by
  have hstops : Stops 0 [] := fun m l hm => by cases hm
  have hstarts := h.free.starts hstops
  cases hts : exprTokens e with
  | nil =>
    rw [hts] at hstarts
    cases hstarts
  | cons t ts => exact Nat.succ_pos _

/-- Tokens and a bound that is not greater. -/
theorem of_placed {n level : Nat} {ts : List TokenKind} (h : Placed n ts e level) (hts : exprTokens e = ts)
    (hlevel : e.level = level) (hn : n ≤ 30 * ts.length) : Told e := by
  subst hts
  subst hlevel
  exact h.mono hn e.level_le

theorem binary {op : BinaryOp} (hleft : Told left) (hright : Told right) : Told (.binary op left right) := by
  by_cases hop : op = .pow
  · subst hop
    refine .of_placed (pow_placed (hleft.inPlace 10 (by decide)) (hright.inPlace 8 (by decide))) rfl rfl ?_
    simp only [List.length_append, List.length_cons]
    omega
  · have hlevel := BinaryOp.level_lt hop
    have htokens : exprTokens (.binary op left right) = Syntax.inPlace (op.level + 2) left (exprTokens left) ++
        op.kind :: Syntax.inPlace (op.level + 3) right (exprTokens right) := by
      rw [exprTokens, BinaryOp.leftLevel, BinaryOp.rightLevel, if_neg hop, if_neg hop]
    refine .of_placed (binary_placed hop (hleft.inPlace _ (by omega)) (hright.inPlace _ (by omega))) htokens
      (if_neg hop) ?_
    simp only [List.length_append, List.length_cons]
    omega

end Told

mutual

/-- Every expression is read from its tokens. -/
theorem Expr.told : (e : Expr) → e.every Expr.printable = true → Told e
  | .literal v, _ => .of_placed (literal_placed v) rfl rfl (Nat.le_of_ble_eq_true rfl)
  | .name s, _ => .of_placed (name_placed s) rfl rfl (Nat.le_of_ble_eq_true rfl)
  | .template _ _, h => by simp [Expr.every, Expr.printable, Expr.writable] at h
  | .unary op .before operand, h => by
    simp only [Expr.every, Bool.and_eq_true] at h
    -- each operand is printed for the level at which its place is read
    refine .of_placed (unaryBefore_placed op ((operand.told h.2).inPlace 8 (by decide))) rfl rfl ?_
    simp only [List.length_cons]
    omega
  | .unary op .after operand, h => by
    simp only [Expr.every, Expr.printable, Expr.parsed, Bool.and_eq_true, Bool.or_eq_true, beq_iff_eq] at h
    refine .of_placed (unaryAfter_placed h.1.1 ((operand.told h.2).inPlace 11 (by decide))) rfl rfl ?_
    simp only [List.length_append, List.length_singleton]
    omega
  | .binary op left right, h => by
    simp only [Expr.every, Bool.and_eq_true] at h
    exact (left.told h.1.2).binary (right.told h.2)
  | .member object field, h => by
    simp only [Expr.every, Bool.and_eq_true] at h
    refine .of_placed (member_placed field ((object.told h.2).inPlace 11 (by decide))) rfl rfl ?_
    simp only [List.length_append, List.length_cons]
    omega
  | .index object indices, h => by
    simp only [Expr.every, Expr.printable, Expr.parsed, Bool.and_eq_true, Bool.not_eq_true'] at h
    refine .of_placed (index_placed ((object.told h.1.2).inPlace 11 (by decide)) h.1.1.1
      (list_reads rfl (by decide) rfl indices h.2)) rfl rfl ?_
    simp only [List.length_append, List.length_cons]
    omega
  | .call callee arguments, h => by
    simp only [Expr.every, Bool.and_eq_true] at h
    refine .of_placed (call_placed ((callee.told h.1.2).inPlace 11 (by decide))
      (list_reads rfl (by decide) rfl arguments h.2)) rfl rfl ?_
    simp only [List.length_append, List.length_cons]
    omega
  | .assign op target value, h => by
    simp only [Expr.every, Bool.and_eq_true] at h
    refine .of_placed (assign_placed ((target.told h.1.2).inPlace 2 (by decide)) (value.told h.2).free) rfl rfl ?_
    simp only [List.length_append, List.length_cons]
    omega
  | .array items, h => by
    simp only [Expr.every, Bool.and_eq_true] at h
    refine .of_placed (array_placed (list_reads rfl (by decide) rfl items h.2)) rfl rfl ?_
    simp only [List.length_append, List.length_cons]
    omega
  | .set items, h => by
    simp only [Expr.every, Bool.and_eq_true] at h
    refine .of_placed (set_placed (list_reads rfl (by decide) rfl items h.2)) rfl rfl ?_
    simp only [List.length_append, List.length_cons]
    omega
  | .object fields, h => by
    simp only [Expr.every, Bool.and_eq_true] at h
    refine .of_placed (object_placed (fields_reads fields h.2)) rfl rfl ?_
    simp only [List.length_append, List.length_cons]
    omega
  | .ternary test yes no, h => by
    simp only [Expr.every, Bool.and_eq_true] at h
    refine .of_placed (ternary_placed ((test.told h.1.1.2).inPlace 2 (by decide)) (yes.told h.1.2).free
      (no.told h.2).free) rfl rfl ?_
    simp only [List.length_append, List.length_cons]
    omega

/-- Every list of expressions is read up to the mark that closes it. -/
theorem list_reads {close : Mark} (hclose : close.binds? = none) (hcomma : close ≠ .comma)
    (hexpr : TokenKind.startsExpr (.mark close) = false) :
    (es : List Expr) → everyIn Expr.printable es = true → (rest : List TokenKind) →
      ReadsFrom (30 * (listTokens es).length + 15) (fun depth => listUntil depth close)
        (listTokens es ++ [.mark close]) es rest
  | [], _, rest => (listUntil_nil close).mono (by decide)
  | e :: es, h, rest => by
    simp only [everyIn, Bool.and_eq_true] at h
    have htold := e.told h.1
    have hpos := htold.length_pos
    have hus : es = [] → listTokens es = [] := by rintro rfl; rfl
    rw [listTokens, List.append_assoc]
    refine listUntil_cons hclose hcomma hexpr htold.free hus (list_reads hclose hcomma hexpr es h.2) ?_ ?_
    · rw [List.length_append]
      omega
    · have hlength := length_le_separated hus
      rw [List.length_append]
      omega

/-- Every list of fields is read up to its closing brace. -/
theorem fields_reads : (fields : List (String × Expr)) → everyField Expr.printable fields = true →
    (rest : List TokenKind) → ReadsFrom (30 * (fieldTokens fields).length + 15) fieldsUntil
      (fieldTokens fields ++ [.mark .rightBrace]) fields rest
  | [], _, rest => fieldsUntil_nil.mono (by decide)
  | (key, e) :: fields, h, rest => by
    simp only [everyField, everyOf, Bool.and_eq_true] at h
    have hus : fields = [] → fieldTokens fields = [] := by rintro rfl; rfl
    rw [fieldTokens, fieldToken, List.append_assoc]
    have hlength := length_le_separated hus
    refine fieldsUntil_cons (e.told h.1).free hus (fields_reads fields h.2) ?_ ?_
    all_goals
      simp only [List.length_append, List.length_cons]
      omega

end

end StackScript.Syntax
