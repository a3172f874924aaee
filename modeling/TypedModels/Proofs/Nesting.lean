import TypedModels.Document.JsonText
import TypedModels.Proofs.Decoding

/-!
# How deep a document in a text is nested

While a value is read, each container that is open has a place below the limit, and so has
everything that it holds already. What is read is therefore not deeper than the limit, and a document
that is read from a text has a tree within the limit of texts.

## Main definitions

* `Reader.Fits` : open containers that stay below a limit with all that they hold.
* `Document.Reading.Sound` : the definitions that have been read can be written again.
-/

namespace TypedModels

/-! ## Open containers -/

namespace Reader

/-- The finished parts of a container. -/
def Context.values : Context → List Value
  | .item done => done
  | .member done _ => done.map (·.2)

/-- The containers that are open, innermost first. -/
def State.contexts : State → List Context
  | .value around => around
  | .firstItem around => .item [] :: around
  | .afterItem done around => .item done :: around
  | .firstKey around => .member [] "" :: around
  | .key done around => .member done "" :: around
  | .colon done name around => .member done name :: around
  | .afterMember done around => .member done "" :: around

/-- Each container has a place below the limit, and each of its parts fits inside it. -/
def Fits (limit : Nat) : List Context → Prop
  | [] => True
  | c :: around =>
    around.length < limit ∧ (∀ v ∈ c.values, v.depth + around.length < limit) ∧ Fits limit around

/-- What a step leads to fits: the containers that stay open, or the value that is done. -/
def Step.Fits (limit : Nat) : Step → Prop
  | .more s => Reader.Fits limit s.contexts
  | .done v => v.depth ≤ limit
  | .broken => True

variable {limit : Nat} {around : List Context}

theorem Fits.length_le (h : Fits limit around) : around.length ≤ limit := by
  cases around with
  | nil => exact Nat.zero_le limit
  | cons c around => exact h.1

theorem finish_fits {v : Value} (hv : v.depth + around.length ≤ limit) (h : Fits limit around) :
    (finish v around).Fits limit := by
  cases around with
  | nil => exact hv
  | cons c around =>
    obtain ⟨hroom, hparts, houter⟩ := h
    have hv : v.depth + around.length < limit := hv
    cases c with
    | item done =>
      show Fits limit (.item (v :: done) :: around)
      exact ⟨hroom, List.forall_mem_cons.2 ⟨hv, hparts⟩, houter⟩
    | member done key =>
      show Fits limit (.member ((key, v) :: done) "" :: around)
      exact ⟨hroom, List.forall_mem_cons.2 ⟨hv, hparts⟩, houter⟩

theorem finish_scalar_fits {v : Value} (hv : v.depth = 0) (h : Fits limit around) :
    (finish v around).Fits limit :=
  finish_fits (by rw [hv, Nat.zero_add]; exact h.length_le) h

theorem startValue_fits (h : Fits limit around) (t : Token) :
    (startValue (.strict limit) around t).Fits limit := by
  unfold startValue
  split
  · exact finish_scalar_fits rfl h
  · exact finish_scalar_fits rfl h
  · exact finish_scalar_fits rfl h
  · exact finish_scalar_fits rfl h
  · exact trivial
  · exact trivial
  · split
    · next hroom =>
      show Fits limit (.item [] :: around)
      exact ⟨of_decide_eq_true hroom, nofun, h⟩
    · exact trivial
  · split
    · next hroom =>
      show Fits limit (.member [] "" :: around)
      exact ⟨of_decide_eq_true hroom, nofun, h⟩
    · exact trivial
  · exact trivial

theorem takeKey_fits {done : List (String × Value)} {key : String}
    (h : Fits limit (.member done key :: around)) (t : Token) :
    (takeKey (.strict limit) done around t).Fits limit := by
  unfold takeKey
  split
  · exact h
  · exact trivial
  · exact trivial

/-- An array fits where its items did. -/
theorem finish_arr_fits {done : List Value} (h : Fits limit (.item done :: around)) :
    (finish (.arr done.reverse) around).Fits limit := by
  obtain ⟨hroom, hparts, houter⟩ := h
  refine finish_fits ?_ houter
  have hdepth : (Value.arr done.reverse).depth ≤ limit - around.length - 1 + 1 := by
    refine Value.depth_arr_le_iff.2 fun v hv => ?_
    have := hparts v (List.mem_reverse.1 hv)
    omega
  omega

/-- An object fits where its members did. -/
theorem finish_obj_fits {done : List (String × Value)} {key : String}
    (h : Fits limit (.member done key :: around)) :
    (finish (.obj done.reverse) around).Fits limit := by
  obtain ⟨hroom, hparts, houter⟩ := h
  refine finish_fits ?_ houter
  have hdepth : (Value.obj done.reverse).depth ≤ limit - around.length - 1 + 1 := by
    refine Value.depth_obj_le_iff.2 fun m hm => ?_
    have := hparts m.2 (List.mem_map_of_mem (List.mem_reverse.1 hm))
    omega
  omega

/-- A step leaves everything below the limit. -/
theorem step_fits {s : State} (h : Fits limit s.contexts) (t : Token) :
    (step (.strict limit) s t).Fits limit := by
  unfold step
  split
  · exact startValue_fits h t
  · exact finish_arr_fits h
  · exact startValue_fits h t
  · exact h
  · exact finish_arr_fits h
  · exact trivial
  · exact finish_obj_fits h
  · exact takeKey_fits h t
  · exact takeKey_fits h t
  · exact h
  · exact trivial
  · exact h
  · exact finish_obj_fits h
  · exact trivial

end Reader

/-! ## Documents -/

namespace Document

namespace Reading

/-- The definitions can be written into a document and read back. -/
def Good (ds : List Definition) : Prop :=
  ∀ d ∈ ds, d.isGenuine = true ∧ d.encode.depth ≤ Definition.room

/-- The definitions that have been read are good, and what is open of the next one fits. -/
def Sound : Reading → Prop
  | .key found | .colon found _ | .passing found _ | .afterMember found =>
    ∀ ds, found = some ds → Good ds
  | .afterItem ds | .definition _ ds | .afterDefinition _ ds => Good ds
  | .inside _ ds state => Good ds ∧ Reader.Fits Definition.room state.contexts
  | .finished doc => Good doc.definitions
  | .start | .firstKey | .onlyItem | .list _ | .firstDefinition _ => True

theorem takeKey_sound {found : Option (List Definition)} {t : Token} {r : Reading}
    (hfound : ∀ ds, found = some ds → Good ds) (h : takeKey found t = .ok r) : r.Sound := by
  unfold takeKey at h
  split at h
  · split at h
    · cases h
    · cases h
      exact hfound
  · cases h

theorem takeList_sound {place : Place} {t : Token} {r : Reading} (h : takeList place t = .ok r) :
    r.Sound := by
  unfold takeList at h
  split at h <;> cases h
  exact trivial

theorem takeInside_sound {place : Place} {ds : List Definition} {s : Reader.State} {t : Token}
    {r : Reading} (hds : Good ds) (hs : Reader.Fits Definition.room s.contexts)
    (h : takeInside place ds s t = .ok r) : r.Sound := by
  have hstep := Reader.step_fits hs t
  unfold takeInside at h
  split at h
  · cases h
  split at h
  · next hmore =>
    rw [hmore] at hstep
    cases h
    exact ⟨hds, hstep⟩
  · next v hdone =>
    rw [hdone] at hstep
    cases hd : Definition.decode v with
    | error e =>
      rw [hd] at h
      cases h
    | ok d =>
      rw [hd] at h
      cases h
      obtain ⟨hgenuine, hdepth⟩ := shrinks_definition hd
      exact List.forall_mem_cons.2 ⟨⟨hgenuine, Nat.le_trans hdepth hstep⟩, hds⟩
  · cases h

theorem takeDefinition_sound {place : Place} {ds : List Definition} {t : Token} {r : Reading}
    (hds : Good ds) (h : takeDefinition place ds t = .ok r) : r.Sound := by
  unfold takeDefinition at h
  split at h
  · exact takeInside_sound hds (s := .value []) trivial h
  · exact takeInside_sound hds (s := .value []) trivial h
  · cases h

theorem endList_sound {place : Place} {ds : List Definition} (hds : Good ds) :
    (endList ds place).Sound := by
  cases place with
  | member =>
    intro ds' h
    cases h
    exact hds
  | alone => exact hds

theorem step_sound {r r' : Reading} {t : Token} (hr : r.Sound) (h : r.step t = .ok r') :
    r'.Sound := by
  have hnil : Good [] := nofun
  have hnone : ∀ ds, none = some ds → Good ds := nofun
  unfold step at h
  split at h
  · cases h
    exact trivial
  · cases h
    exact trivial
  · cases h
  · cases h
    exact hnil
  · exact takeKey_sound hnone h
  · exact takeKey_sound hr h
  · cases h
    split
    · exact trivial
    · exact hr
  · cases h
  · split at h
    · cases h
      exact hr
    · cases h
      exact hr
    · cases h
  · cases h
    exact hr
  · next found =>
    cases h
    cases found with
    | none => exact hnil
    | some ds => exact hr ds rfl
  · cases h
  · cases h
    exact hnil
  · exact takeList_sound h
  · cases h
    exact hr
  · cases h
  · exact takeList_sound h
  · cases h
    exact endList_sound hnil
  · exact takeDefinition_sound hnil h
  · exact takeDefinition_sound hr h
  · exact takeInside_sound hr.1 hr.2 h
  · cases h
    exact hr
  · cases h
    exact endList_sound fun d hd => hr d (List.mem_reverse.1 hd)
  · cases h
  · cases h

end Reading

/-- A document that is read from a text can be written and read back, within the limit of texts. -/
theorem good_of_ofJson {text : String} {doc : Document} (h : ofJson text = .ok doc) :
    doc.isGenuine = true ∧ doc.encode.depth ≤ Value.maxDepth := by
  have htokens : ofTokens (Token.ofText text) = .ok doc := by
    unfold ofJson at h
    cases hr : ofTokens (Token.ofText text) with
    | error e => rw [hr] at h; cases h
    | ok d => rw [hr] at h; cases h; rfl
  obtain ⟨r, hr, h⟩ := bind_eq_ok_iff.1 htokens
  have hstart : Reading.start.Sound := trivial
  have hsound := foldlM_invariant Reading.Sound
    (fun t _ r r' hr h => Reading.step_sound hr h) hstart hr
  cases r with
  | finished d =>
    cases h
    refine ⟨isGenuine_iff.2 fun d hd => (hsound d hd).1, ?_⟩
    exact depth_encode_le_iff.2 fun d hd => (hsound d hd).2
  | _ => cases h

end Document

end TypedModels
