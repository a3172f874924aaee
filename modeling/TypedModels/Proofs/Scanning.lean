import Mathlib.Data.List.TakeWhile
import TypedModels.Yaml.Scan

/-!
# Tokens of a YAML text and its collections

However much of a text has been read, its layout makes sense: the candidates for keys are places
among the tokens found, each open block collection stands further right than the one around it, and
the open ones are those that have started among the tokens and have not ended. So among the tokens
of a text no block collection ends that has not started, and all of them end if all flow collections
do. No token reaches beyond the end of the text.

## Main definitions

* `Yaml.Yields` : what holds of a result if there is one.
* `Yaml.Token.blockDepth?`, `Yaml.Token.flowDepth` : how many collections are open behind a token.
* `Yaml.Layout.Coherent` : a layout that makes sense.
* `Yaml.Scan.Sound` : a coherent layout, with no more to be passed over than there is.

## Main results

* `Yaml.Scan.run_yields` : the layout is coherent wherever the reading stops.
* `Yaml.tokens?_collections` : the collections among the tokens of a text.
-/

namespace TypedModels.Yaml

/-! ## Results -/

/-- The result has the property, if there is one. -/
def Yields {α : Type} (P : α → Prop) (result : Option α) : Prop := ∀ a, result = some a → P a

namespace Yields

variable {α β : Type} {P : α → Prop} {Q : β → Prop} {result : Option α}

theorem none : Yields P none := nofun

theorem some {a : α} (h : P a) : Yields P (some a) := by
  rintro _ ⟨⟩
  exact h

/-- What goes on from a result may use what the result is. -/
theorem bind_of_eq {k : α → Option β} (hk : ∀ a, result = Option.some a → Yields Q (k a)) :
    Yields Q (result >>= k) := by
  intro b hb
  obtain ⟨a, ha, hb⟩ := Option.bind_eq_some_iff.1 hb
  exact hk a ha b hb

theorem bind {k : α → Option β} (h : Yields P result) (hk : ∀ a, P a → Yields Q (k a)) :
    Yields Q (result >>= k) := bind_of_eq fun a ha => hk a (h a ha)

theorem map {f : α → β} (h : Yields P result) (hf : ∀ a, P a → Q (f a)) :
    Yields Q (result.map f) := by
  intro b hb
  obtain ⟨a, ha, rfl⟩ := Option.map_eq_some_iff.1 hb
  exact hf a (h a ha)

end Yields

/-! ## Open collections -/

namespace Token

/-- How many block collections are open behind a token, given how many are open before it; `none` if
the token ends one and none is open. -/
def blockDepth? (depth : Nat) : Token → Option Nat
  | .blockSequence | .blockMapping => some (depth + 1)
  | .blockEnd =>
    match depth with
    | 0 => none
    | depth + 1 => some depth
  | _ => some depth

/-- How many flow collections are open behind a token. A mark that ends none has no effect. -/
def flowDepth (depth : Nat) : Token → Nat
  | .openSequence | .openMapping => depth + 1
  | .closeSequence | .closeMapping => depth - 1
  | _ => depth

/-- The token neither starts nor ends a collection. For each such form of token this holds by
definition. -/
structure Inert (t : Token) : Prop where
  block : ∀ depth, blockDepth? depth t = some depth := by exact fun _ => rfl
  flow : ∀ depth, flowDepth depth t = depth := by exact fun _ => rfl

/-- The token starts a block collection. -/
structure StartsBlock (t : Token) : Prop where
  block : ∀ depth, blockDepth? depth t = some (depth + 1) := by exact fun _ => rfl
  flow : ∀ depth, flowDepth depth t = depth := by exact fun _ => rfl

variable {t : Token} {ts before after : List Token} {depth n : Nat}

/-- Inside of one more block collection, the same tokens are one deeper. -/
theorem blockDepth?_succ (h : blockDepth? depth t = some n) :
    blockDepth? (depth + 1) t = some (n + 1) := by
  cases t with
  | blockEnd =>
    cases depth with
    | zero => cases h
    | succ depth => cases h; rfl
  | _ => cases h; rfl

theorem foldlM_blockDepth?_succ (h : ts.foldlM blockDepth? depth = some n) :
    ts.foldlM blockDepth? (depth + 1) = some (n + 1) := by
  induction ts generalizing depth with
  | nil =>
    cases h
    rfl
  | cons t ts ih =>
    obtain ⟨d, hd, h⟩ := Option.bind_eq_some_iff.1 h
    rw [List.foldlM_cons, blockDepth?_succ hd]
    exact ih h

theorem Inert.foldlM_insert (ht : t.Inert) :
    (before ++ t :: after).foldlM blockDepth? depth =
      (before ++ after).foldlM blockDepth? depth := by
  simp [List.foldlM_append, ht.block]

/-- What starts a block collection in the midst of tokens is open behind them. -/
theorem StartsBlock.foldlM_insert (ht : t.StartsBlock)
    (h : (before ++ after).foldlM blockDepth? depth = some n) :
    (before ++ t :: after).foldlM blockDepth? depth = some (n + 1) := by
  rw [List.foldlM_append] at h ⊢
  obtain ⟨d, hd, h⟩ := Option.bind_eq_some_iff.1 h
  rw [hd]
  change List.foldlM blockDepth? d (t :: after) = _
  rw [List.foldlM_cons, ht.block]
  exact foldlM_blockDepth?_succ h

theorem foldlM_replicate_blockEnd :
    (List.replicate n blockEnd).foldlM blockDepth? (depth + n) = some depth := by
  induction n with
  | zero => rfl
  | succ n ih => exact ih

theorem foldl_flowDepth_insert (ht : ∀ depth, flowDepth depth t = depth) :
    (before ++ t :: after).foldl flowDepth depth = (before ++ after).foldl flowDepth depth := by
  simp [List.foldl_append, ht]

theorem foldl_flowDepth_replicate (ht : ∀ depth, flowDepth depth t = depth) :
    (List.replicate n t).foldl flowDepth depth = depth := by
  induction n with
  | zero => rfl
  | succ n ih => rw [List.replicate_succ, List.foldl_cons, ht, ih]

end Token

/-! ## Layouts -/

namespace Layout

/-- The tokens found, in order. -/
def tokens (l : Layout) : List Token := l.found.reverse

/-- The tokens are counted, and every candidate stands for a place among them. Each open block
collection stands further right than the one around it, and the open collections are those that have
started and not ended among the tokens. -/
structure Coherent (l : Layout) : Prop where
  count : l.count = l.tokens.length
  candidates : ∀ o ∈ l.candidate :: l.outer, ∀ k, o = some k → k.index ≤ l.count
  nested : l.indents.Pairwise (· > ·)
  blocks : l.tokens.foldlM Token.blockDepth? 0 = some l.indents.length
  flows : l.tokens.foldl Token.flowDepth 0 = l.outer.length

variable {l : Layout} {t : Token} {index column : Nat}

@[simp] theorem tokens_emit : (l.emit t).tokens = l.tokens ++ [t] := by
  simp [tokens, emit]

/-- A token is put before those from an index on. -/
theorem tokens_insertAt (h : l.count = l.tokens.length) (hi : index ≤ l.count) :
    (l.insertAt index t).tokens = l.tokens.take index ++ t :: l.tokens.drop index := by
  have hlength : l.count = l.found.length := by rw [h, tokens, List.length_reverse]
  have hindex : l.found.length - (l.count - index) = index := by omega
  simp [tokens, insertAt, List.reverse_take, List.reverse_drop, hindex]

namespace Coherent

/-- At the start of a text nothing has been found. -/
theorem empty : Coherent {} := ⟨rfl, by simp, .nil, rfl, rfl⟩

theorem candidate_le (h : l.Coherent) {k : Candidate} (hk : l.candidate = some k) :
    k.index ≤ l.count := h.candidates _ List.mem_cons_self k hk

/-! Where in the text the layout is, and whether a key may start there, does not matter. -/

theorem allow (h : l.Coherent) (keyAllowed : Bool) : Coherent { l with keyAllowed } :=
  ⟨h.count, h.candidates, h.nested, h.blocks, h.flows⟩

theorem past (h : l.Coherent) (c : Char) : (l.past c).Coherent := by
  unfold Layout.past
  split <;> exact ⟨h.count, h.candidates, h.nested, h.blocks, h.flows⟩

/-! ## Candidates -/

theorem candidate (h : l.Coherent) {candidate : Option Candidate}
    (hk : ∀ k, candidate = some k → k.index ≤ l.count) : Coherent { l with candidate } where
  count := h.count
  candidates := List.forall_mem_cons.2 ⟨hk, (List.forall_mem_cons.1 h.candidates).2⟩
  nested := h.nested
  blocks := h.blocks
  flows := h.flows

theorem noCandidate (h : l.Coherent) : Coherent { l with candidate := none } := h.candidate nofun

theorem dropCandidate (h : l.Coherent) : Yields Coherent l.dropCandidate := by
  unfold Layout.dropCandidate
  split
  · exact .none
  · exact .some h.noCandidate

theorem propose (h : l.Coherent) : Yields Coherent l.propose := by
  unfold Layout.propose
  split
  · exact h.dropCandidate.map fun l hl => hl.candidate fun k hk => by cases hk; exact Nat.le_refl _
  · exact .some h

/-! ## Tokens -/

/-- A token behind all others, which may start or end a flow collection. -/
theorem emitIn (h : l.Coherent) (candidate : Option Candidate) (outer : List (Option Candidate))
    (hblock : ∀ depth, Token.blockDepth? depth t = some depth)
    (hflow : Token.flowDepth l.outer.length t = outer.length)
    (hk : ∀ o ∈ candidate :: outer, ∀ k, o = some k → k.index ≤ l.count) :
    Coherent { l.emit t with candidate, outer } where
  count := by
    change l.count + 1 = (l.emit t).tokens.length
    rw [tokens_emit, List.length_append, h.count]
    rfl
  candidates o ho k hok := Nat.le_succ_of_le (hk o ho k hok)
  nested := h.nested
  blocks := by
    change (l.emit t).tokens.foldlM Token.blockDepth? 0 = some l.indents.length
    simp [h.blocks, hblock]
  flows := by
    change (l.emit t).tokens.foldl Token.flowDepth 0 = _
    rw [tokens_emit, List.foldl_append, h.flows]
    exact hflow

theorem emit (h : l.Coherent) (ht : t.Inert) : (l.emit t).Coherent :=
  h.emitIn l.candidate l.outer ht.block (ht.flow _) h.candidates

/-- A token in the midst of others, which may start a block collection. -/
theorem insertIn (h : l.Coherent) (hi : index ≤ l.count) {indents : List Nat}
    (hflow : ∀ depth, Token.flowDepth depth t = depth) (hnested : indents.Pairwise (· > ·))
    (hblocks : (l.tokens.take index ++ t :: l.tokens.drop index).foldlM Token.blockDepth? 0 =
      some indents.length) : Coherent { l.insertAt index t with indents } where
  count := by
    change l.count + 1 = (l.insertAt index t).tokens.length
    rw [tokens_insertAt h.count hi, h.count, List.length_append, List.length_cons, ← Nat.add_assoc,
      ← List.length_append, List.take_append_drop]
  candidates o ho k hk := Nat.le_succ_of_le (h.candidates o ho k hk)
  nested := hnested
  blocks := by
    change (l.insertAt index t).tokens.foldlM Token.blockDepth? 0 = _
    rw [tokens_insertAt h.count hi, hblocks]
  flows := by
    change (l.insertAt index t).tokens.foldl Token.flowDepth 0 = _
    rw [tokens_insertAt h.count hi, Token.foldl_flowDepth_insert hflow, List.take_append_drop]
    exact h.flows

theorem insertAt (h : l.Coherent) (hi : index ≤ l.count) (ht : t.Inert) :
    (l.insertAt index t).Coherent := by
  refine h.insertIn hi ht.flow h.nested ?_
  rw [ht.foldlM_insert, List.take_append_drop]
  exact h.blocks

/-! ## Block collections -/

theorem openBlock (h : l.Coherent) (hi : index ≤ l.count) (ht : t.StartsBlock) :
    (l.openBlock column index t).Coherent := by
  unfold Layout.openBlock
  split
  · exact h
  · next hopen =>
    refine h.insertIn hi ht.flow ?_ ?_
    · have hinner : ∀ c, l.indents.head? = some c → c < column := by
        intro c hc
        simp_all
      cases hindents : l.indents with
      | nil => exact List.pairwise_singleton _ _
      | cons c outer =>
        have hnested := hindents ▸ h.nested
        have hc := hinner c (by rw [hindents]; rfl)
        refine List.pairwise_cons.2 ⟨List.forall_mem_cons.2 ⟨hc, fun d hd => ?_⟩, hnested⟩
        exact Nat.lt_trans (List.rel_of_pairwise_cons hnested hd) hc
    · refine ht.foldlM_insert ?_
      rw [List.take_append_drop]
      exact h.blocks

theorem openBlockHere (h : l.Coherent) (ht : t.StartsBlock) :
    Yields Coherent (l.openBlockHere t) := by
  unfold Layout.openBlockHere
  split
  · exact .some h
  · split
    · exact .some (h.openBlock (Nat.le_refl _) ht)
    · exact .none

theorem closeBlocks (h : l.Coherent) (stays : Nat → Bool) : (l.closeBlocks stays).Coherent := by
  unfold Layout.closeBlocks
  split
  · exact h
  · dsimp only
    generalize hended : (l.indents.takeWhile fun column => !stays column).length = ended
    have hle : ended ≤ l.indents.length := hended ▸ (List.takeWhile_sublist _).length_le
    have htokens : tokens { l with
        indents := l.indents.drop ended
        found := List.replicate ended .blockEnd ++ l.found
        count := l.count + ended } = l.tokens ++ List.replicate ended .blockEnd := by
      simp [tokens]
    constructor
    case count => rw [htokens, List.length_append, List.length_replicate, ← h.count]
    case candidates => exact fun o ho k hk => Nat.le_add_right_of_le (h.candidates o ho k hk)
    case nested => exact h.nested.sublist (List.drop_sublist ..)
    case blocks =>
      rw [htokens, List.foldlM_append, h.blocks, ← Nat.sub_add_cancel hle, List.length_drop]
      exact Token.foldlM_replicate_blockEnd
    case flows =>
      rw [htokens, List.foldl_append, h.flows]
      exact Token.foldl_flowDepth_replicate fun _ => rfl

theorem closeAll (h : l.Coherent) : Yields Coherent l.closeAll :=
  (h.closeBlocks _).dropCandidate.map fun _ hl => hl.allow false

/-! ## Keys -/

theorem markedKey (h : l.Coherent) : Yields Coherent (settleKey.markedKey l) :=
  (h.openBlockHere {}).map fun _ hl => hl.allow _

/-- The mark of a key and the start of its mapping are put where the candidate stands. -/
theorem settleKey (h : l.Coherent) : Yields Coherent l.settleKey := by
  unfold Layout.settleKey
  split
  · next k hk =>
    split
    · have hle := h.candidate_le hk
      have hmark : (l.insertAt k.index .key).Coherent := h.insertAt hle {}
      have hblock : Token.blockMapping.StartsBlock := {}
      exact .some ((hmark.openBlock (Nat.le_succ_of_le hle) hblock).noCandidate.allow false)
    · split
      · exact .none
      · exact h.markedKey
  · exact h.markedKey

/-! ## Flow collections -/

theorem openFlow (h : l.Coherent) (hblock : ∀ depth, Token.blockDepth? depth t = some depth)
    (hflow : ∀ depth, Token.flowDepth depth t = depth + 1) : Yields Coherent (l.openFlow t) :=
  h.propose.map fun l hl => (hl.emitIn none (l.candidate :: l.outer) hblock (hflow _)
    (List.forall_mem_cons.2 ⟨nofun, hl.candidates⟩)).allow true

theorem closeFlow (h : l.Coherent) (hblock : ∀ depth, Token.blockDepth? depth t = some depth)
    (hflow : ∀ depth, Token.flowDepth depth t = depth - 1) : Yields Coherent (l.closeFlow t) := by
  refine h.dropCandidate.map fun l hl => ?_
  have houter := (List.forall_mem_cons.1 hl.candidates).2
  split
  · next hnone =>
    refine (hl.emitIn l.candidate l.outer hblock ?_ hl.candidates).allow false
    rw [hflow, hnone]
    rfl
  · next candidate outer hsome =>
    refine (hl.emitIn candidate outer hblock ?_ (hsome ▸ houter)).allow false
    rw [hflow, hsome]
    rfl

end Coherent

theorem outer_closeBlocks (stays : Nat → Bool) : (l.closeBlocks stays).outer = l.outer := by
  unfold closeBlocks
  split <;> rfl

theorem indents_closeBlocks_false (h : l.outer = []) :
    (l.closeBlocks fun _ => false).indents = [] := by
  have hall : l.indents.takeWhile (fun _ => true) = l.indents :=
    List.takeWhile_eq_self_iff.2 fun _ _ => rfl
  simp [closeBlocks, inFlow, h, hall]

/-- Outside of all flow collections, the end of a text ends all block collections. -/
theorem indents_of_closeAll : Yields (fun l' => l'.outer = [] → l'.indents = []) l.closeAll := by
  refine Yields.map (P := fun l' => l'.outer = [] → l'.indents = []) ?_ fun _ h => h
  unfold dropCandidate
  split
  · exact .none
  · exact .some fun h => indents_closeBlocks_false (outer_closeBlocks _ ▸ h)

end Layout

/-! ## Marks with a name

They neither start nor end a collection, and each lies within the text it is read from. -/

theorem length_takeWhile_le {p : Char → Bool} {cs : List Char} :
    (cs.takeWhile p).length ≤ cs.length := (List.takeWhile_sublist p).length_le

theorem anchorName?_yields {rest : List Char} :
    Yields (fun r => r.2 ≤ rest.length) (anchorName? rest) := by
  unfold anchorName?
  dsimp only
  split
  · exact .some length_takeWhile_le
  · exact .none

theorem tag?_yields {flow : Bool} {rest : List Char} :
    Yields (fun r => r.1.Inert ∧ r.2 ≤ rest.length) (tag? flow rest) := by
  unfold tag?
  extract_lets behind
  have hbehind : ∀ r, r.2.2 ≤ rest.length →
      Yields (fun r => r.1.Inert ∧ r.2 ≤ rest.length) (behind r) := by
    rintro ⟨handle, suffix, length⟩ hle
    refine Yields.bind_of_eq fun octets _ => ?_
    split
    · refine .some ⟨?_, hle⟩
      split <;> exact {}
    · exact .none
  split
  · next more =>
    extract_lets written
    split
    · next hclosed =>
      simp only [Bool.and_eq_true, decide_eq_true_eq] at hclosed
      obtain ⟨hlt, -⟩ := List.getElem?_eq_some_iff.1 hclosed.2
      exact hbehind (_, _, _) (Nat.succ_le_succ hlt)
    · exact .none
  · refine Yields.bind_of_eq fun r hr => hbehind r ?_
    obtain ⟨_, -, rfl⟩ := Option.map_eq_some_iff.1 hr
    exact length_takeWhile_le

theorem tagDirective?_yields {line : List Char} : Yields Token.Inert (tagDirective? line) := by
  unfold tagDirective?
  split
  · extract_lets name behind
    have hbehind : ∀ r, Yields Token.Inert (behind r) := by
      rintro ⟨handle, line⟩
      dsimp only [behind]
      split
      · exact Yields.bind_of_eq fun _ _ => .some {}
      · exact .none
    split
    · exact hbehind (_, _)
    · split
      · exact hbehind (_, _)
      · exact .none
  · exact .none

theorem directive?_yields {line : List Char} : Yields Token.Inert (directive? line) := by
  unfold directive?
  dsimp only
  split
  · exact .none
  · split
    · split
      · exact .some {}
      · exact .none
    · split
      · exact tagDirective?_yields
      · exact .none

theorem two_le_of_startsMarker {c : Char} {rest : List Char} (h : startsMarker (c :: rest) = true) :
    2 ≤ rest.length := by
  unfold startsMarker at h
  split at h
  · next heq => cases heq; simp
  · next heq => cases heq; simp
  · cases h

/-! ## Scans -/

namespace Scan

/-- The layout makes sense, and no more characters are to be passed over than are left. -/
structure Sound (rest : List Char) (s : Scan) : Prop where
  layout : s.layout.Coherent
  skip : s.skip ≤ rest.length

variable {l : Layout} {c : Char} {rest read : List Char} {gap : Gap} {b : Block} {quote : Quote}

open Layout

theorem sound_of_coherent (h : l.Coherent) (mode : Mode) : Sound rest { layout := l, mode } :=
  ⟨h, Nat.zero_le _⟩

/-- Behind a token of a fixed form, what comes next is between tokens. -/
theorem sound_map {result : Option Layout} (h : Yields Coherent result) :
    Yields (Sound rest) (result.map fun l => { layout := l }) :=
  h.map fun _ hl => sound_of_coherent hl _

theorem startNode_yields (h : l.Coherent) : Yields Coherent (startNode l) :=
  h.propose.map fun _ hl => hl.allow false

theorem takeDash_yields (h : l.Coherent) : Yields Coherent (takeDash l) :=
  (h.openBlockHere {}).bind fun _ hl => hl.dropCandidate.bind fun _ hl =>
    .some ((hl.emit {}).allow true)

theorem takeKey_yields (h : l.Coherent) : Yields Coherent (takeKey l) :=
  (h.openBlockHere {}).bind fun _ hl => hl.dropCandidate.bind fun _ hl =>
    .some ((hl.emit {}).allow _)

theorem takeComma_yields (h : l.Coherent) : Yields Coherent (takeComma l) :=
  h.dropCandidate.map fun _ hl => (hl.emit {}).allow true

theorem takeBlock_yields (h : l.Coherent) (folded : Bool) :
    Yields (Sound rest) (takeBlock folded l rest) :=
  Yields.bind_of_eq fun _ _ => h.dropCandidate.bind fun _ hl =>
    .some ⟨hl.allow true, length_takeWhile_le⟩

theorem startToken_yields (h : l.Coherent) : Yields (Sound rest) (startToken l c rest) := by
  unfold startToken
  split
  · exact sound_map (h.openFlow (fun _ => rfl) fun _ => rfl)
  · exact sound_map (h.openFlow (fun _ => rfl) fun _ => rfl)
  · exact sound_map (h.closeFlow (fun _ => rfl) fun _ => rfl)
  · exact sound_map (h.closeFlow (fun _ => rfl) fun _ => rfl)
  · exact sound_map (takeComma_yields h)
  · exact anchorName?_yields.bind fun _ hle => (startNode_yields h).bind fun _ hl =>
      .some ⟨hl.emit {}, hle⟩
  · exact anchorName?_yields.bind fun _ hle => (startNode_yields h).bind fun _ hl =>
      .some ⟨hl.emit {}, hle⟩
  · exact tag?_yields.bind fun _ ht => (startNode_yields h).bind fun _ hl =>
      .some ⟨hl.emit ht.1, ht.2⟩
  · exact (startNode_yields h).bind fun _ hl => .some (sound_of_coherent hl _)
  · exact (startNode_yields h).bind fun _ hl => .some (sound_of_coherent hl _)
  -- What the other characters start depends on what follows them.
  · split
    · exact sound_map (takeDash_yields h)
    split
    · exact sound_map (takeKey_yields h)
    split
    · exact h.settleKey.bind fun _ hl => .some (sound_of_coherent (hl.emit {}) _)
    split
    · exact takeBlock_yields h _
    split
    · exact (startNode_yields h).bind fun _ hl => .some (sound_of_coherent hl _)
    · exact .none

theorem startLine_yields (h : l.Coherent) : Yields (Sound rest) (startLine l c rest) := by
  unfold startLine
  split
  · exact directive?_yields.bind fun _ ht => h.closeAll.bind fun _ hl =>
      .some ⟨hl.emit ht, length_takeWhile_le⟩
  split
  · next hmarker =>
    simp only [Bool.and_eq_true] at hmarker
    have hle := two_le_of_startsMarker hmarker.2
    refine h.closeAll.bind fun _ hl => .some ⟨hl.emit ?_, hle⟩
    split <;> exact {}
  · exact startToken_yields h

theorem between_yields (h : l.Coherent) : Yields (Sound rest) (between l c rest) := by
  unfold between
  split
  · exact .some (sound_of_coherent h _)
  split
  · exact .some (sound_of_coherent h _)
  split
  · exact .some (sound_of_coherent (h.allow _) _)
  · exact startLine_yields (h.closeBlocks _)

/-! ## Scalars -/

theorem coherent_emit_scalar (h : l.Coherent) (text : String) (plain : Bool) :
    (l.emit (.scalar text plain)).Coherent := h.emit {}

theorem inPlain_yields (h : l.Coherent) : Yields (Sound rest) (inPlain l read gap c rest) := by
  have hend : (endPlain l read gap).Coherent := (coherent_emit_scalar h _ _).allow _
  unfold inPlain
  split
  · split
    · exact .none
    · exact .some (sound_of_coherent h _)
  split
  · exact between_yields hend
  split
  · exact .none
  split
  · exact between_yields hend
  · exact .some (sound_of_coherent h _)

theorem sound_inSingle (h : l.Coherent) : Sound rest (inSingle l read c rest) := by
  unfold inSingle
  split
  · exact sound_of_coherent h _
  split
  · next hquote =>
    obtain ⟨_, rfl⟩ := List.head?_eq_some_iff.1 hquote
    exact ⟨h, by simp⟩
  · exact sound_of_coherent (coherent_emit_scalar h _ _) _

theorem inDouble_yields (h : l.Coherent) : Yields (Sound rest) (inDouble l read c rest) := by
  unfold inDouble
  split
  · exact .some (sound_of_coherent (coherent_emit_scalar h _ _) _)
  split
  · exact .some (sound_of_coherent h _)
  split
  · exact .none
  · next letter rest =>
    split
    · exact .some ⟨h, by simp⟩
    · exact Yields.bind_of_eq fun _ hr =>
        .some ⟨h, Nat.succ_le_succ (le_length_of_escaped? hr)⟩

theorem inQuoted_yields (h : l.Coherent) :
    Yields (Sound rest) (inQuoted l quote read gap c rest) := by
  unfold inQuoted
  split
  · exact .some (sound_of_coherent h _)
  split
  · exact .none
  split
  · exact .some (sound_inSingle h)
  · exact inDouble_yields h

theorem inMargin_yields (h : l.Coherent) : Yields (Sound rest) (inMargin l b c rest) := by
  unfold inMargin
  dsimp only
  split
  · exact .some (sound_of_coherent h _)
  split
  · exact .none
  split
  · exact .some (sound_of_coherent h _)
  split
  · exact .some (sound_of_coherent h _)
  · exact between_yields (coherent_emit_scalar h _ _)

theorem inBlock_yields (h : l.Coherent) : Yields (Sound rest) (inBlock l b c rest) := by
  unfold inBlock
  split
  · exact .some (sound_of_coherent h _)
  · exact inMargin_yields h
  · split
    · exact .some (sound_of_coherent h _)
    · exact .some (sound_of_coherent h _)

/-! ## Texts -/

variable {s : Scan} {cs : List Char}

/-- Taking a character leads from a coherent layout to another, and no token that starts with the
character reaches beyond the text. -/
theorem step_yields (h : s.layout.Coherent) (hskip : s.skip = 0) :
    Yields (Sound rest) (s.step c rest) := by
  unfold step
  split
  · exact between_yields h
  · split
    · exact between_yields h
    · exact .some ⟨h, hskip ▸ Nat.zero_le _⟩
  · exact inPlain_yields h
  · exact inQuoted_yields h
  · exact inBlock_yields h

/-- The layout at the end of a text is coherent, and nothing behind the end is to be passed over. -/
theorem run_yields (h : s.Sound cs) : Yields (Sound []) (s.run cs) := by
  induction cs generalizing s with
  | nil => exact .some h
  | cons c rest ih =>
    unfold run
    split
    · exact ih ⟨h.layout.past c, Nat.sub_le_of_le_add h.skip⟩
    · next hskip =>
      split
      · next s' hs' =>
        have hstep := step_yields h.layout (Nat.eq_zero_of_not_pos hskip) s' hs'
        exact ih ⟨hstep.layout.past c, hstep.skip⟩
      · exact .none

theorem atEnd_yields (h : s.layout.Coherent) : Yields Coherent s.atEnd := by
  unfold atEnd
  split
  · exact .some h
  · exact .some h
  · exact .some ((coherent_emit_scalar h _ _).allow _)
  · exact .none
  · exact .some (coherent_emit_scalar h _ _)

theorem tokens?_yields {s : Scan} (h : s.layout.Coherent) :
    Yields (fun ts => ∃ depth, ts.foldlM Token.blockDepth? 0 = some depth ∧
      (ts.foldl Token.flowDepth 0 = 0 → depth = 0)) s.tokens? := by
  refine (atEnd_yields h).bind fun l hl => ?_
  refine Yields.bind_of_eq fun l' hl' => .some ?_
  have hend : (l'.emit .textEnd).Coherent := (hl.closeAll l' hl').emit {}
  refine ⟨l'.indents.length, hend.blocks, fun hflow => ?_⟩
  have houter : l'.outer = [] := List.length_eq_zero_iff.1 (hend.flows.symm.trans hflow)
  rw [indents_of_closeAll l' hl' houter, List.length_nil]

end Scan

/-- No block collection ends among the tokens of a text that has not started before. If all flow
collections are closed, all block collections have ended. -/
theorem tokens?_collections {text : String} {ts : List Token} (h : tokens? text = some ts) :
    ∃ depth, ts.foldlM Token.blockDepth? 0 = some depth ∧
      (ts.foldl Token.flowDepth 0 = 0 → depth = 0) := by
  obtain ⟨cs, -, h⟩ := Option.bind_eq_some_iff.1 h
  obtain ⟨s, hs, h⟩ := Option.bind_eq_some_iff.1 h
  have hstart : Scan.Sound cs { layout := {} } := ⟨.empty, Nat.zero_le _⟩
  exact Scan.tokens?_yields (Scan.run_yields hstart s hs).layout ts h

/-- The mapping starts before its key, which is known as such only by the colon. -/
example : tokens? "k: [a]" = some [.blockMapping, .key, .scalar "k" true, .value, .openSequence,
    .scalar "a" true, .closeSequence, .blockEnd, .textEnd] := by decide +kernel

end TypedModels.Yaml
