import TypedModels.Proofs.Nesting
import TypedModels.Proofs.Printing

/-!
# Reading a printed document

A reader that is given the tokens of a value holds the value afterwards, if the value fits below its
limit. So the text of a document is read back as the document.

## Main definitions

* `Document.Leads` : tokens that lead from one state of reading to another.
* `Tagged` : members among which the kind of a definition can be checked on the way.
* `Definition.Readable` : trees that a definition is read from.
-/

namespace TypedModels

open Reader

/-- The keys are different, and the kind is a string. -/
structure Tagged (members : List (String × Value)) : Prop where
  nodup : (members.map (·.1)).Nodup
  kind : ∀ m ∈ members, m.1 = "kind" → ∃ s, m.2 = .str s

/-- The kind of a definition does not stand directly inside the containers. -/
def Calm (around : List Context) : Prop := around ≠ [] ∧ ∀ done, around ≠ [.member done "kind"]

theorem calm_item (done : List Value) (around : List Context) : Calm (.item done :: around) :=
  ⟨by simp, by simp⟩

namespace Document

/-- The tokens lead from one state of reading to another. -/
def Leads (ts : List Token) (r r' : Reading) : Prop := ts.foldlM Reading.step r = .ok r'

namespace Leads

variable {ts ts' : List Token} {t : Token} {r r₁ r' : Reading}

theorem nil : Leads [] r r := rfl

theorem cons (ht : r.step t = .ok r₁) (h : Leads ts r₁ r') : Leads (t :: ts) r r' := by
  rw [Leads, List.foldlM_cons, ht]
  exact h

theorem single (ht : r.step t = .ok r') : Leads [t] r r' := nil.cons ht

theorem append (h : Leads ts r r₁) (h' : Leads ts' r₁ r') : Leads (ts ++ ts') r r' := by
  rw [Leads, List.foldlM_append, h]
  exact h'

/-- Where the first token leads to the same state, all of them do. -/
theorem of_step_eq {r₀ : Reading} (ht : r₀.step t = r.step t) (h : Leads (t :: ts) r r') :
    Leads (t :: ts) r₀ r' := by
  rw [Leads, List.foldlM_cons] at h ⊢
  rw [ht]
  exact h

end Leads

/-! ## Values inside a definition -/

section

variable {place : Place} {ds : List Definition} {around : List Context} {t : Token}

theorem step_inside {s s' : State} (hkind : Definition.kindFault? s t = none)
    (hstep : Reader.step (.strict Definition.room) s t = .more s') :
    (Reading.inside place ds s).step t = .ok (.inside place ds s') := by
  simp only [Reading.step, Reading.takeInside, hkind, hstep]

theorem kindFault?_value (h : Calm around) : Definition.kindFault? (.value around) t = none := by
  unfold Definition.kindFault?
  split
  case h_3 done hs _ =>
    cases hs
    exact absurd rfl (h.2 done)
  all_goals first | rfl | contradiction

theorem kindFault?_firstItem (h : around ≠ []) :
    Definition.kindFault? (.firstItem around) t = none := by
  obtain ⟨c, outer, rfl⟩ := List.exists_cons_of_ne_nil h
  rfl

theorem kindFault?_key {done : List (String × Value)} {key : String}
    (h : around = [] → key = "kind" → ∀ d ∈ done, d.1 ≠ "kind") :
    Definition.kindFault? (.key done around) (.str (some key)) = none := by
  unfold Definition.kindFault?
  split
  case h_1 done heq hstr =>
    cases heq
    have hname : key = "kind" := by simpa using hstr
    have hdone : done.any (·.1 = "kind") = false := by simpa using h rfl hname
    rw [hdone]
    rfl
  all_goals first | rfl | contradiction

theorem startValue_open (h : around.length < Definition.room) :
    startValue (.strict Definition.room) around .openArray = .more (.firstItem around) ∧
      startValue (.strict Definition.room) around .openObject = .more (.firstKey around) :=
  ⟨if_pos (decide_eq_true h), if_pos (decide_eq_true h)⟩

/-- What comes behind a value that lies directly in a container. -/
def after (v : Value) (around : List Context) : Context → State
  | .item done => .afterItem (v :: done) around
  | .member done key => .afterMember ((key, v) :: done) around

theorem finish_cons (v : Value) (c : Context) (around : List Context) :
    finish v (c :: around) = .more (after v around c) := by
  cases c <;> rfl

variable (place ds) in
/-- The tokens of a value lead past it, wherever it fits. -/
def Taken (v : Value) : Prop :=
  ∀ {c around}, Calm (c :: around) → v.depth + around.length < Definition.room →
    Leads v.tokens (.inside place ds (.value (c :: around))) (.inside place ds (after v around c))

theorem taken_scalar {v : Value} (hv : v.tokens = [t])
    (hstart : ∀ around, startValue (.strict Definition.room) around t = finish v around) :
    Taken place ds v := by
  intro c around hcalm _
  rw [hv]
  refine .single (step_inside (kindFault?_value hcalm) ?_)
  rw [Reader.step, hstart, finish_cons]

/-! ### Arrays -/

theorem tokens_eq_cons (v : Value) : ∃ t ts, v.tokens = t :: ts ∧ t ≠ .closeArray := by
  cases v with
  | null | bool | num | str => exact ⟨_, _, rfl, nofun⟩
  | arr items => cases items <;> exact ⟨_, _, rfl, nofun⟩
  | obj members => cases members <;> exact ⟨_, _, rfl, nofun⟩

/-- The first token of an array that is not empty starts its first item. -/
theorem step_firstItem (ht : t ≠ .closeArray) (h : around ≠ []) :
    (Reading.inside place ds (.firstItem around)).step t =
      (Reading.inside place ds (.value (.item [] :: around))).step t := by
  have hcalm := calm_item [] around
  have hstep : Reader.step (.strict Definition.room) (.firstItem around) t =
      Reader.step (.strict Definition.room) (.value (.item [] :: around)) t := by
    cases t <;> first | rfl | contradiction
  simp only [Reading.step, Reading.takeInside, kindFault?_firstItem h, kindFault?_value hcalm,
    hstep]

theorem leads_laterItems {items done : List Value} (h : ∀ v ∈ items, Taken place ds v)
    (hroom : ∀ v ∈ items, v.depth + around.length < Definition.room) :
    Leads (Value.laterItems items) (.inside place ds (.afterItem done around))
      (.inside place ds (.afterItem (items.reverse ++ done) around)) := by
  induction items generalizing done with
  | nil => exact .nil
  | cons v items ih =>
    obtain ⟨hv, hrest⟩ := List.forall_mem_cons.1 h
    obtain ⟨hvroom, hrestroom⟩ := List.forall_mem_cons.1 hroom
    have hcalm := calm_item done around
    rw [Value.laterItems, List.reverse_cons, List.append_assoc]
    exact .cons (step_inside rfl rfl) ((hv hcalm hvroom).append (ih hrest hrestroom))

theorem taken_arr {items : List Value} (h : ∀ v ∈ items, Taken place ds v) :
    Taken place ds (.arr items) := by
  intro c around hcalm hroom
  rw [Value.depth] at hroom
  have hlength : (c :: around).length = around.length + 1 := rfl
  have hopen : (Reading.inside place ds (.value (c :: around))).step .openArray =
      .ok (.inside place ds (.firstItem (c :: around))) :=
    step_inside (kindFault?_value hcalm) (startValue_open (by omega)).1
  have hfit : ∀ v ∈ items, v.depth + (c :: around).length < Definition.room := by
    intro v hv
    have := Value.depth_le_depthItems hv
    omega
  cases items with
  | nil => exact .cons hopen (.single (step_inside (kindFault?_firstItem hcalm.1) (finish_cons ..)))
  | cons v items =>
    obtain ⟨hv, hrest⟩ := List.forall_mem_cons.1 h
    obtain ⟨hvfit, hrestfit⟩ := List.forall_mem_cons.1 hfit
    obtain ⟨t, ts, hts, ht⟩ := tokens_eq_cons v
    have hfirst : Leads v.tokens (.inside place ds (.firstItem (c :: around)))
        (.inside place ds (.afterItem [v] (c :: around))) := by
      have hvalue := hv (calm_item [] (c :: around)) hvfit
      rw [hts] at hvalue ⊢
      exact hvalue.of_step_eq (step_firstItem ht hcalm.1)
    have hclose : (Reading.inside place ds (.afterItem (items.reverse ++ [v]) (c :: around))).step
        .closeArray = .ok (.inside place ds (after (.arr (v :: items)) around c)) := by
      refine step_inside rfl ?_
      rw [← finish_cons, Reader.step, List.reverse_append, List.reverse_reverse]
      rfl
    exact .cons hopen (hfirst.append ((leads_laterItems hrest hrestfit).append (.single hclose)))

/-! ### Objects -/

/-- The kind of a definition stands once among its members, as a string. -/
theorem leads_member {m : String × Value} {done : List (String × Value)}
    (hm : Taken place ds m.2) (hroom : m.2.depth + around.length < Definition.room)
    (hkind : around = [] → m.1 = "kind" → (∃ s, m.2 = .str s) ∧ ∀ d ∈ done, d.1 ≠ "kind") :
    Leads (.str (some m.1) :: .colon :: m.2.tokens) (.inside place ds (.key done around))
      (.inside place ds (.afterMember (m :: done) around)) := by
  have hkey := kindFault?_key fun htop hname => (hkind htop hname).2
  refine .cons (step_inside hkey rfl) (.cons (step_inside rfl rfl) ?_)
  -- Only the kind of a definition is looked at before its end.
  by_cases htop : around = [] ∧ m.1 = "kind"
  · obtain ⟨rfl, hname⟩ := htop
    obtain ⟨s, hs⟩ := (hkind rfl hname).1
    obtain ⟨key, v⟩ := m
    cases hname
    cases hs
    exact .single (step_inside rfl rfl)
  · refine hm (c := .member done m.1) ⟨nofun, fun done' heq => htop ?_⟩ hroom
    simp only [List.cons.injEq, Context.member.injEq] at heq
    exact ⟨heq.2, heq.1.2⟩

theorem leads_laterMembers {members done : List (String × Value)}
    (h : ∀ m ∈ members, Taken place ds m.2)
    (hroom : ∀ m ∈ members, m.2.depth + around.length < Definition.room)
    (htagged : around = [] → Tagged (done.reverse ++ members)) :
    Leads (Value.laterMembers members) (.inside place ds (.afterMember done around))
      (.inside place ds (.afterMember (members.reverse ++ done) around)) := by
  induction members generalizing done with
  | nil => exact .nil
  | cons m members ih =>
    obtain ⟨hm, hrest⟩ := List.forall_mem_cons.1 h
    obtain ⟨hmroom, hrestroom⟩ := List.forall_mem_cons.1 hroom
    have hkind : around = [] → m.1 = "kind" → (∃ s, m.2 = .str s) ∧ ∀ d ∈ done, d.1 ≠ "kind" := by
      intro htop hname
      obtain ⟨hnodup, hkind⟩ := htagged htop
      refine ⟨hkind m (by simp) hname, fun d hd => ?_⟩
      rw [List.map_append, List.nodup_append] at hnodup
      rw [← hname]
      exact hnodup.2.2 d.1 (by simpa using ⟨d.2, hd⟩) m.1 (by simp)
    rw [Value.laterMembers, List.reverse_cons, List.append_assoc]
    refine .cons (step_inside rfl rfl) ((leads_member hm hmroom hkind).append ?_)
    refine ih hrest hrestroom fun htop => ?_
    simpa using htagged htop

/-- The first key of an object is taken as a later one. -/
theorem step_firstKey (key : String) :
    (Reading.inside place ds (.firstKey around)).step (.str (some key)) =
      (Reading.inside place ds (.key [] around)).step (.str (some key)) := by
  have hkind : Definition.kindFault? (.key [] around) (.str (some key)) = none :=
    kindFault?_key fun _ _ => nofun
  simp only [Reading.step, Reading.takeInside, hkind]
  rfl

/-- All members of an object, up to its end. -/
theorem leads_members {m : String × Value} {members : List (String × Value)}
    (h : ∀ n ∈ m :: members, Taken place ds n.2)
    (hroom : ∀ n ∈ m :: members, n.2.depth + around.length < Definition.room)
    (htagged : around = [] → Tagged (m :: members)) :
    Leads (.str (some m.1) :: .colon :: (m.2.tokens ++ Value.laterMembers members))
      (.inside place ds (.firstKey around))
      (.inside place ds (.afterMember (members.reverse ++ [m]) around)) := by
  obtain ⟨hm, hrest⟩ := List.forall_mem_cons.1 h
  obtain ⟨hmroom, hrestroom⟩ := List.forall_mem_cons.1 hroom
  have hkind : around = [] → m.1 = "kind" → (∃ s, m.2 = .str s) ∧
      ∀ d ∈ ([] : List (String × Value)), d.1 ≠ "kind" :=
    fun htop hname => ⟨(htagged htop).kind m List.mem_cons_self hname, nofun⟩
  have hfirst := (leads_member hm hmroom hkind).of_step_eq (step_firstKey m.1)
  exact hfirst.append (leads_laterMembers hrest hrestroom htagged)

theorem taken_obj {members : List (String × Value)} (h : ∀ m ∈ members, Taken place ds m.2) :
    Taken place ds (.obj members) := by
  intro c around hcalm hroom
  rw [Value.depth] at hroom
  have hlength : (c :: around).length = around.length + 1 := rfl
  have hopen : (Reading.inside place ds (.value (c :: around))).step .openObject =
      .ok (.inside place ds (.firstKey (c :: around))) :=
    step_inside (kindFault?_value hcalm) (startValue_open (by omega)).2
  have hfit : ∀ m ∈ members, m.2.depth + (c :: around).length < Definition.room := by
    intro m hm
    have := Value.depth_le_depthMembers hm
    omega
  cases members with
  | nil => exact .cons hopen (.single (step_inside rfl (finish_cons ..)))
  | cons m members =>
    have hclose : (Reading.inside place ds (.afterMember (members.reverse ++ [m])
        (c :: around))).step .closeObject =
        .ok (.inside place ds (after (.obj (m :: members)) around c)) := by
      refine step_inside rfl ?_
      rw [← finish_cons, Reader.step, List.reverse_append, List.reverse_reverse]
      rfl
    have hmembers := leads_members h hfit fun htop => absurd htop hcalm.1
    rw [Value.tokens, ← List.append_assoc]
    exact .cons hopen (hmembers.append (.single hclose))

/-! ### All values -/

theorem taken_of_numberless {v : Value} (hv : v.Numberless) : Taken place ds v := by
  induction hv with
  | null => exact taken_scalar rfl fun _ => rfl
  | bool b => exact taken_scalar rfl fun _ => rfl
  | str s => exact taken_scalar rfl fun _ => rfl
  | arr _ ih => exact taken_arr ih
  | obj _ ih => exact taken_obj ih

end

end Document

/-! ## Definitions -/

/-- A tree that the definition is read from, token by token. -/
structure Definition.Readable (v : Value) (d : Definition) : Prop where
  numberless : v.Numberless
  depth_le : v.depth ≤ Definition.room
  decode_eq : Definition.decode v = .ok d
  tagged : ∃ m members, v = .obj (m :: members) ∧ Tagged (m :: members)

namespace Document

variable {place : Place} {v : Value} {d : Definition} {ds : List Definition}

theorem leads_definition (h : Definition.Readable v d) :
    Leads v.tokens (.definition place ds) (.afterDefinition place (d :: ds)) := by
  obtain ⟨hnumberless, hdepth, hdecode, m, members, rfl, htagged⟩ := h
  have hopen : (Reading.definition place ds).step .openObject =
      .ok (.inside place ds (.firstKey [])) := rfl
  cases hnumberless with
  | obj hparts =>
    have hfit : ∀ n ∈ m :: members, n.2.depth + ([] : List Context).length < Definition.room := by
      intro n hn
      have := Value.depth_le_depthMembers hn
      rw [Value.depth] at hdepth
      rw [List.length_nil]
      omega
    have hmembers : Leads _ (.inside place ds (.firstKey [])) _ :=
      leads_members (fun n hn => taken_of_numberless (hparts n hn)) hfit fun _ => htagged
    have hclose : (Reading.inside place ds (.afterMember (members.reverse ++ [m]) [])).step
        .closeObject = .ok (.afterDefinition place (d :: ds)) := by
      have hfinish : Reader.step (.strict Definition.room)
          (.afterMember (members.reverse ++ [m]) []) .closeObject = .done (.obj (m :: members)) := by
        rw [Reader.step, List.reverse_append, List.reverse_reverse]
        rfl
      simp only [Reading.step, Reading.takeInside, Definition.kindFault?, hfinish, hdecode]
      rfl
    rw [Value.tokens, ← List.append_assoc]
    exact .cons hopen (hmembers.append (.single hclose))

/-! ## Documents -/

variable {enc : Definition → Value} {all : List Definition}

theorem leads_laterDefinitions (h : ∀ d ∈ all, Definition.Readable (enc d) d) :
    Leads (Value.laterItems (all.map enc)) (.afterDefinition place ds)
      (.afterDefinition place (all.reverse ++ ds)) := by
  induction all generalizing ds with
  | nil => exact .nil
  | cons d all ih =>
    obtain ⟨hd, hrest⟩ := List.forall_mem_cons.1 h
    rw [List.map_cons, Value.laterItems, List.reverse_cons, List.append_assoc]
    exact .cons rfl ((leads_definition hd).append (ih hrest))

theorem leads_list (h : ∀ d ∈ all, Definition.Readable (enc d) d) :
    Leads (Value.arr (all.map enc)).tokens (.list place) (Reading.endList all place) := by
  cases all with
  | nil => exact .cons rfl (.single rfl)
  | cons d all =>
    obtain ⟨hd, hrest⟩ := List.forall_mem_cons.1 h
    have hfirst : Leads (enc d).tokens (.firstDefinition place) (.afterDefinition place [d]) := by
      have hlater : Leads (enc d).tokens (.definition place []) _ := leads_definition hd
      obtain ⟨m, members, hobj, -⟩ := hd.tagged
      rw [hobj] at hlater ⊢
      exact hlater.of_step_eq rfl
    have hclose : (Reading.afterDefinition place (all.reverse ++ [d])).step .closeArray =
        .ok (Reading.endList (d :: all) place) := by
      rw [Reading.step, List.reverse_append, List.reverse_reverse]
      rfl
    rw [List.map_cons, Value.tokens]
    exact .cons rfl (hfirst.append ((leads_laterDefinitions hrest).append (.single hclose)))

/-- A document is read back from a text of trees that its definitions are read from. -/
theorem ofJson_text {doc : Document} (h : ∀ d ∈ doc.definitions, Definition.Readable (enc d) d) :
    ofJson (Value.obj [("definitions", .arr (doc.definitions.map enc))]).text = .ok doc := by
  have hnumberless : (Value.obj [("definitions", .arr (doc.definitions.map enc))]).Numberless := by
    refine .obj (List.forall_mem_singleton.2 (.arr (List.forall_mem_map.2 fun d hd => ?_)))
    exact (h d hd).numberless
  have hlist : Leads _ (.list .member) (.afterMember (some doc.definitions)) := leads_list h
  have hleads : Leads (Value.obj [("definitions", .arr (doc.definitions.map enc))]).tokens .start
      (.finished doc) := by
    rw [Value.tokens]
    exact .cons rfl (.cons rfl (.cons rfl (hlist.append (.single rfl))))
  rw [ofJson, Value.ofText_text hnumberless, ofTokens, hleads]
  rfl

end Document

end TypedModels
