import Mathlib.Data.List.Forall2
import Mathlib.Data.List.Induction
import Mathlib.Data.List.Sort
import AgentFlow.Proofs.Transcript

/-!
# Channels of a stream

The pieces of an answer come on several channels, the text and the input of each tool call, and the
turn that they add up to depends on what each channel carries and not on how the channels are cut
into pieces or mixed (`Turn.ofDeltas_channels`). A channel has to be opened by the start of its
call, once and before its first piece (`Delta.Orderly`). What is known of a draft after some pieces
is said by their channels alone (`TurnDraft.Holds`), and every piece keeps it.
-/

namespace AgentFlow

namespace Delta

/-! ## Channels -/

/-- The text in a piece. -/
def text? : Delta → Option String
  | text chunk => some chunk
  | _ => none

/-- The input in a piece of the call with a number. -/
def fragment? (index : Nat) : Delta → Option String
  | toolInput i fragment => if i = index then some fragment else none
  | _ => none

/-- The number of the call that a piece belongs to. -/
def index? : Delta → Option Nat
  | toolStart index _ _ | toolInput index _ => some index
  | _ => none

/-- The number of the call that a piece starts. -/
def start? : Delta → Option Nat
  | toolStart index _ _ => some index
  | _ => none

/-- All text in some pieces. -/
def textOf (deltas : List Delta) : String := String.join (deltas.filterMap text?)

/-- All input in some pieces for the call with a number. -/
def inputOf (index : Nat) (deltas : List Delta) : String :=
  String.join (deltas.filterMap (fragment? index))

/-- A call is started at most once, and no piece of it comes before its start. -/
def Orderly (deltas : List Delta) : Prop :=
  deltas.Pairwise fun earlier later => ∀ index ∈ later.start?, earlier.index? ≠ some index

/-- It can be decided whether the pieces of every call are in order. -/
instance : DecidablePred Orderly := fun deltas => inferInstanceAs (Decidable (deltas.Pairwise _))

/-- The input of a call from its text. -/
def parsedInput (text : String) : Value :=
  if Text.isAllBlank text then .map [] else (Json.read? text).getD .null

/-- A tool call that some pieces make: it is started under a name, has the id of its start or one
made of its number, and the input in its pieces. -/
structure Makes (deltas : List Delta) (index : Nat) (call : ToolUse) : Prop where
  named : call.name ≠ ""
  started : ∃ id, toolStart index id call.name ∈ deltas ∧
    call.id = if id = "" then "call_" ++ integerText index else id
  input : call.input = parsedInput (inputOf index deltas)

/-- Pieces that carry the same on every channel. -/
structure SameChannels (deltas others : List Delta) : Prop where
  text : textOf deltas = textOf others
  starts : ∀ index id name, toolStart index id name ∈ deltas ↔ toolStart index id name ∈ others
  input : ∀ index id name, toolStart index id name ∈ deltas →
    inputOf index deltas = inputOf index others

/-- The text in two stretches of pieces is that of the first one and then that of the second one. -/
theorem textOf_append (deltas more : List Delta) :
    textOf (deltas ++ more) = textOf deltas ++ textOf more := by
  rw [textOf, List.filterMap_append, String.join_append]
  rfl

/-- The input of a call in two stretches of pieces is that of the first one and then that of the
second one. -/
theorem inputOf_append (index : Nat) (deltas more : List Delta) :
    inputOf index (deltas ++ more) = inputOf index deltas ++ inputOf index more := by
  rw [inputOf, List.filterMap_append, String.join_append]
  rfl

/-- Pieces that do not belong to a call bring it no input. -/
theorem inputOf_eq_empty {index : Nat} {deltas : List Delta}
    (h : ∀ delta ∈ deltas, delta.index? ≠ some index) : inputOf index deltas = "" := by
  have hnone : deltas.filterMap (fragment? index) = [] := by
    refine List.filterMap_eq_nil_iff.2 fun delta hmem => ?_
    cases delta with
    | toolInput i fragment =>
      refine if_neg fun heq => h _ hmem ?_
      rw [index?, heq]
    | _ => rfl
  rw [inputOf, hnone]
  rfl

/-- What comes first in an orderly stream is orderly. -/
theorem Orderly.of_append {deltas more : List Delta} (h : Orderly (deltas ++ more)) :
    Orderly deltas :=
  (List.pairwise_append.1 h).1

/-- Where a call is started, none of its pieces came before. -/
theorem Orderly.index?_ne {deltas more : List Delta} {index : Nat} {id name : String}
    (h : Orderly (deltas ++ .toolStart index id name :: more)) :
    ∀ delta ∈ deltas, delta.index? ≠ some index := by
  intro delta hmem
  exact (List.pairwise_append.1 h).2.2 delta hmem _ List.mem_cons_self index rfl

end Delta

namespace TurnDraft

/-! ## Drafts -/

/-- The draft of a call before anything is known of it. -/
abbrev blank : CallDraft := ⟨"", "", ""⟩

/-- Extending the list of drafts keeps those that are there, and fills up with blank ones as far as
the number. -/
theorem getElem?_extend (calls : List CallDraft) (index i : Nat) :
    (extend calls index)[i]? = calls[i]?.or (if i ≤ index then some blank else none) := by
  unfold extend
  rw [List.getElem?_append, List.getElem?_replicate]
  split_ifs <;> simp_all <;> omega

/-- What some pieces say of the draft that they add up to. -/
structure Holds (deltas : List Delta) (draft : TurnDraft) : Prop where
  text : draft.text = Delta.textOf deltas
  started : ∀ index id name, .toolStart index id name ∈ deltas →
    draft.calls[index]? = some ⟨id, name, Delta.inputOf index deltas⟩
  /-- A call that is not started has no name. -/
  named : ∀ index call, draft.calls[index]? = some call → call.name ≠ "" →
    .toolStart index call.id call.name ∈ deltas
  /-- A place that is held free has nothing in it. -/
  free : ∀ index call, draft.calls[index]? = some call →
    (∀ delta ∈ deltas, delta.index? ≠ some index) → call = blank

/-- Of an empty stream, nothing is drafted. -/
theorem holds_nil : Holds [] {} where
  text := rfl
  started := nofun
  named := nofun
  free := nofun

/-- A piece that belongs to no call leaves the calls as they are. -/
theorem Holds.of_index?_eq_none {deltas : List Delta} {draft : TurnDraft} {delta : Delta}
    (h : Holds deltas draft) (hindex : delta.index? = none)
    (htext : (draft.add delta).text = draft.text ++ Delta.textOf [delta])
    (hcalls : (draft.add delta).calls = draft.calls) :
    Holds (deltas ++ [delta]) (draft.add delta) := by
  have hstart : ∀ index id name, delta ≠ .toolStart index id name := by
    rintro index id name rfl
    cases hindex
  refine ⟨?_, fun index id name hmem => ?_, fun index call hcall hname => ?_,
    fun index call hcall hfree => ?_⟩
  · rw [htext, h.text, Delta.textOf_append]
  · obtain hmem | hlast := List.mem_append.1 hmem
    · have hnone : Delta.inputOf index [delta] = "" :=
        Delta.inputOf_eq_empty (by simp [hindex])
      rw [hcalls, h.started index id name hmem, Delta.inputOf_append, hnone, String.append_empty]
    · exact absurd (List.mem_singleton.1 hlast).symm (hstart index id name)
  · exact List.mem_append_left _ (h.named index call (hcalls ▸ hcall) hname)
  · exact h.free index call (hcalls ▸ hcall) fun d hd => hfree d (List.mem_append_left _ hd)

/-- A start takes the place of its call, in which there is nothing yet. -/
theorem Holds.start {deltas : List Delta} {draft : TurnDraft} {index : Nat} {id name : String}
    (h : Holds deltas draft) (horderly : Delta.Orderly (deltas ++ [.toolStart index id name])) :
    Holds (deltas ++ [.toolStart index id name]) (draft.add (.toolStart index id name)) := by
  have hnew := horderly.index?_ne
  -- What stands at each number: the started call in its place, blank drafts up to it, the others as
  -- before.
  have hcalls : ∀ i, (draft.add (.toolStart index id name)).calls[i]? =
      if index = i then some ⟨id, name, ""⟩
      else draft.calls[i]?.or (if i ≤ index then some blank else none) := by
    intro i
    rw [add, List.getElem?_modify, getElem?_extend]
    split_ifs with hi hle hle
    · subst hi
      cases hplace : draft.calls[index]? with
      | none => rfl
      | some call =>
        -- No piece before the start belongs to the call, so that what is in its place is blank.
        rw [h.free index call hplace hnew]
        rfl
    · omega
    · cases draft.calls[i]? <;> rfl
    · cases draft.calls[i]? <;> rfl
  have hcases : ∀ i call, (draft.add (.toolStart index id name)).calls[i]? = some call →
      index = i ∧ call = ⟨id, name, ""⟩ ∨
        index ≠ i ∧ (draft.calls[i]? = some call ∨ call = blank) := by
    intro i call hcall
    rw [hcalls] at hcall
    split_ifs at hcall with hi hle
    · exact .inl ⟨hi, (Option.some.inj hcall).symm⟩
    · obtain hplace | ⟨-, hblank⟩ := Option.or_eq_some_iff.1 hcall
      · exact .inr ⟨hi, .inl hplace⟩
      · exact .inr ⟨hi, .inr (Option.some.inj hblank).symm⟩
    · exact .inr ⟨hi, .inl (by rwa [Option.or_none] at hcall)⟩
  -- In the order of the fields: text, calls that were started, calls with a name, drafts without a
  -- piece.
  refine ⟨?_, fun i id' name' hmem => ?_, fun i call hcall hname => ?_,
    fun i call hcall hfree => ?_⟩
  · rw [Delta.textOf_append]
    exact h.text.trans String.append_empty.symm
  · rw [hcalls, Delta.inputOf_append]
    obtain hmem | hlast := List.mem_append.1 hmem
    · have hne : index ≠ i := by
        rintro rfl
        exact hnew _ hmem rfl
      have hnone : Delta.inputOf i [.toolStart index id name] = "" := rfl
      rw [if_neg hne, h.started i id' name' hmem, hnone, String.append_empty]
      rfl
    · cases List.mem_singleton.1 hlast
      rw [if_pos rfl, Delta.inputOf_eq_empty hnew]
      rfl
  · obtain ⟨rfl, rfl⟩ | ⟨-, hplace | rfl⟩ := hcases i call hcall
    · exact List.mem_append_right _ List.mem_cons_self
    · exact List.mem_append_left _ (h.named i call hplace hname)
    · exact absurd rfl hname
  · obtain ⟨rfl, -⟩ | ⟨-, hplace | rfl⟩ := hcases i call hcall
    · exact absurd rfl (hfree _ (List.mem_append_right _ List.mem_cons_self))
    · exact h.free i call hplace fun d hd => hfree d (List.mem_append_left _ hd)
    · rfl

/-- A piece of input goes behind what its call has. -/
theorem Holds.input {deltas : List Delta} {draft : TurnDraft} {index : Nat} {fragment : String}
    (h : Holds deltas draft) :
    Holds (deltas ++ [.toolInput index fragment]) (draft.add (.toolInput index fragment)) := by
  have hstart : ∀ i id name, Delta.toolStart i id name ∈ deltas ++ [.toolInput index fragment] →
      .toolStart i id name ∈ deltas := by
    intro i id name hmem
    obtain hmem | hlast := List.mem_append.1 hmem
    · exact hmem
    · cases List.mem_singleton.1 hlast
  have hinput : ∀ i, Delta.inputOf i [.toolInput index fragment] =
      if index = i then fragment else "" := by
    intro i
    simp only [Delta.inputOf, Delta.fragment?, List.filterMap_cons, List.filterMap_nil]
    split_ifs <;> simp
  -- The list of drafts does not grow: only the one draft takes the input.
  have hcalls : ∀ i, (draft.add (.toolInput index fragment)).calls[i]? =
      draft.calls[i]?.map fun call =>
        if index = i then { call with input := call.input ++ fragment } else call := by
    intro i
    rw [add, List.getElem?_modify]
    rfl
  refine ⟨?_, fun i id name hmem => ?_, fun i call hcall hname => ?_, fun i call hcall hfree => ?_⟩
  · rw [Delta.textOf_append]
    exact h.text.trans String.append_empty.symm
  · rw [hcalls, h.started i id name (hstart i id name hmem), Delta.inputOf_append, hinput]
    split_ifs <;> simp
  all_goals
    rw [hcalls] at hcall
    obtain ⟨before, hplace, rfl⟩ := Option.map_eq_some_iff.1 hcall
  · refine List.mem_append_left _ ?_
    split_ifs at hname ⊢
    · exact h.named i before hplace hname
    · exact h.named i before hplace hname
  · have hne : index ≠ i := by
      rintro rfl
      exact hfree _ (List.mem_append_right _ List.mem_cons_self) rfl
    rw [if_neg hne]
    exact h.free i before hplace fun d hd => hfree d (List.mem_append_left _ hd)

/-- Every piece of an orderly stream keeps what the pieces say of the draft. -/
theorem Holds.add {deltas : List Delta} {draft : TurnDraft} {delta : Delta}
    (h : Holds deltas draft) (horderly : Delta.Orderly (deltas ++ [delta])) :
    Holds (deltas ++ [delta]) (draft.add delta) := by
  cases delta with
  | text chunk =>
    have hchunk : Delta.textOf [.text chunk] = chunk := by simp [Delta.textOf, Delta.text?]
    exact h.of_index?_eq_none rfl (by rw [hchunk, TurnDraft.add]) rfl
  | toolStart index id name => exact h.start horderly
  | toolInput index fragment => exact h.input
  | stop reason => exact h.of_index?_eq_none rfl String.append_empty.symm rfl
  | usage input output => exact h.of_index?_eq_none rfl String.append_empty.symm rfl

/-- The pieces of an orderly stream say what they add up to. -/
theorem holds_addAll {deltas : List Delta} (h : Delta.Orderly deltas) :
    Holds deltas (addAll {} deltas) := by
  induction deltas using List.reverseRecOn with
  | nil => exact holds_nil
  | append_singleton deltas delta ih =>
    have hadd : addAll {} (deltas ++ [delta]) = (addAll {} deltas).add delta := by
      rw [addAll, List.foldl_append]
      rfl
    rw [hadd]
    exact (ih h.of_append).add h

end TurnDraft

/-! ## Turns -/

/-- A draft becomes a call exactly if it has the name of a tool; a missing id is made up from its
number. -/
theorem CallDraft.finish?_eq_some_iff {index : Nat} {draft : CallDraft} {call : ToolUse} :
    draft.finish? index = some call ↔ draft.name ≠ "" ∧ call =
      ⟨if draft.id = "" then "call_" ++ integerText index else draft.id, draft.name,
        Delta.parsedInput draft.input⟩ := by
  have hvalue : draft.value = Delta.parsedInput draft.input := rfl
  unfold finish?
  simp only [String.isEmpty_iff, hvalue]
  by_cases hname : draft.name = ""
  · rw [if_pos hname]
    exact ⟨nofun, fun h => absurd hname h.1⟩
  · rw [if_neg hname, Option.some.injEq, eq_comm]
    exact ⟨fun h => ⟨hname, h⟩, And.right⟩

/-- The entries that are kept stand in the same order as what is made of them. -/
theorem forall₂_filterMap {α β : Type} {R : α → β → Prop} {f : α → Option β} {entries : List α}
    (h : ∀ a ∈ entries, ∀ b, f a = some b → R a b) :
    List.Forall₂ R (entries.filter fun a => (f a).isSome) (entries.filterMap f) := by
  induction entries with
  | nil => exact .nil
  | cons a rest ih =>
    obtain ⟨ha, hrest⟩ := List.forall_mem_cons.1 h
    cases hf : f a with
    | none =>
      rw [List.filterMap_cons_none hf, List.filter_cons_of_neg (by simp [hf])]
      exact ih hrest
    | some b =>
      rw [List.filterMap_cons_some hf, List.filter_cons_of_pos (by simp [hf])]
      exact .cons (ha b hf) (ih hrest)

namespace TurnDraft

variable {deltas : List Delta} {draft : TurnDraft}

/-- The calls that are made of a draft are those of the pieces, in the order of their numbers. -/
theorem Holds.exists_numbers (h : Holds deltas draft) :
    ∃ numbers : List Nat, numbers.Pairwise (· < ·) ∧
      (∀ index, index ∈ numbers ↔ ∃ id name, .toolStart index id name ∈ deltas ∧ name ≠ "") ∧
      List.Forall₂ (Delta.Makes deltas) numbers draft.finish.calls := by
  -- The drafts that have a name, with the numbers at which they stand.
  set kept := draft.calls.zipIdx.filter fun entry => (entry.1.finish? entry.2).isSome with hkept
  have hmem : ∀ entry, entry ∈ kept ↔ draft.calls[entry.2]? = some entry.1 ∧ entry.1.name ≠ "" := by
    intro entry
    rw [hkept, List.mem_filter, List.mem_zipIdx_iff_getElem?, Option.isSome_iff_exists]
    simp only [CallDraft.finish?_eq_some_iff, exists_and_left, exists_eq, and_true]
  refine ⟨kept.map Prod.snd, ?_, fun index => ?_, ?_⟩
  · have hall : (draft.calls.zipIdx.map Prod.snd).Pairwise (· < ·) := by
      rw [List.zipIdx_map_snd]
      exact List.pairwise_lt_range'
    exact hall.sublist (List.filter_sublist.map _)
  · rw [List.mem_map]
    constructor
    · rintro ⟨entry, hentry, rfl⟩
      obtain ⟨hplace, hname⟩ := (hmem entry).1 hentry
      exact ⟨entry.1.id, entry.1.name, h.named _ _ hplace hname, hname⟩
    · rintro ⟨id, name, hstart, hname⟩
      exact ⟨(_, index), (hmem _).2 ⟨h.started index id name hstart, hname⟩, rfl⟩
  · rw [List.forall₂_map_left_iff]
    refine forall₂_filterMap fun entry hentry call hcall => ?_
    obtain ⟨hname, rfl⟩ := CallDraft.finish?_eq_some_iff.1 hcall
    have hplace := List.mem_zipIdx_iff_getElem?.1 hentry
    have hstart := h.named _ _ hplace hname
    have hsame := Option.some.inj (hplace.symm.trans (h.started _ _ _ hstart))
    refine ⟨hname, ⟨entry.1.id, hstart, rfl⟩, ?_⟩
    rw [hsame]

/-- A call that the pieces make is made in one way. -/
theorem Holds.rightUnique (h : Holds deltas draft) : Relator.RightUnique (Delta.Makes deltas) := by
  rintro index ⟨id, name, input⟩ ⟨id', name', input'⟩ hcall hcall'
  obtain ⟨start, hstart, hid⟩ := hcall.started
  obtain ⟨start', hstart', hid'⟩ := hcall'.started
  have hsame := Option.some.inj ((h.started _ _ _ hstart).symm.trans (h.started _ _ _ hstart'))
  obtain ⟨rfl, rfl, -⟩ := CallDraft.mk.inj hsame
  have hinput : input = input' := hcall.input.trans hcall'.input.symm
  have hids : id = id' := hid.trans hid'.symm
  rw [hinput, hids]

end TurnDraft

namespace Delta

/-- A call depends on its channel alone. -/
theorem Makes.of_sameChannels {deltas others : List Delta} {index : Nat} {call : ToolUse}
    (h : Makes others index call) (hsame : SameChannels deltas others) :
    Makes deltas index call := by
  obtain ⟨id, hstart, hid⟩ := h.started
  have hmem := (hsame.starts index id call.name).2 hstart
  exact ⟨h.named, ⟨id, hmem, hid⟩, by rw [h.input, hsame.input index id call.name hmem]⟩

end Delta

open Delta

/-- Asking the model gives what the model's pieces add up to. -/
theorem ModelStep.run_askOnce {σ : Type} (host : Host σ) (session : Session σ) (name : String)
    (request : ModelRequest) : ((askOnce name request).activity.run host session).1 =
      (host.ask request session.world).reply.result := by
  obtain ⟨reply, told, hexchanges, -, hresult⟩ :=
    path_askOnce (Activity.path_run host (askOnce name request).activity session)
  cases hexchanges
  exact hresult

/-- A turn depends on what the channels of its stream carry. Its text is all text of the stream. Its
calls are in the order of their numbers, one for each call that is started under a name. Streams
that carry the same make the same turn, however they are cut and mixed. -/
theorem Turn.ofDeltas_channels {deltas : List Delta} (h : Orderly deltas) :
    (∀ {σ : Type} (host : Host σ) (session : Session σ) (name : String) (request : ModelRequest),
      (host.ask request session.world).reply = ⟨deltas, .complete⟩ →
      ((ModelStep.askOnce name request).activity.run host session).1 = .ok (ofDeltas deltas)) ∧
    (ofDeltas deltas).text = textOf deltas ∧
    (∃ numbers : List Nat, numbers.Pairwise (· < ·) ∧
      (∀ index, index ∈ numbers ↔ ∃ id name, .toolStart index id name ∈ deltas ∧ name ≠ "") ∧
      List.Forall₂ (Makes deltas) numbers (ofDeltas deltas).calls) ∧
    ∀ others, Orderly others → SameChannels deltas others → ofDeltas others = ofDeltas deltas := by
  have hholds := TurnDraft.holds_addAll h
  refine ⟨fun host session name request hreply => ?_, hholds.text, hholds.exists_numbers, ?_⟩
  · rw [ModelStep.run_askOnce, hreply]
    rfl
  · intro others hothers hsame
    have hholds' := TurnDraft.holds_addAll hothers
    obtain ⟨numbers, hsorted, hmem, hcalls⟩ := hholds.exists_numbers
    obtain ⟨numbers', hsorted', hmem', hcalls'⟩ := hholds'.exists_numbers
    -- The same calls are started, so that the numbers are the same, and so is what stands at each.
    have hnumbers : numbers' = numbers := by
      refine hsorted'.eq_of_mem_iff hsorted fun index => ?_
      simp only [hmem, hmem', hsame.starts]
    subst hnumbers
    have hsameCalls := List.right_unique_forall₂' hholds.rightUnique
      (hcalls'.imp fun index call hcall => hcall.of_sameChannels hsame) hcalls
    have htext : (ofDeltas others).text = (ofDeltas deltas).text :=
      hholds'.text.trans (hsame.text.symm.trans hholds.text.symm)
    exact congrArg₂ Turn.mk htext hsameCalls

namespace Sample.Streaming

/-- Two calls mixed with text; a third has no name, and there is none with the number 1. -/
def mixed : List Delta :=
  [.text "Hel", .toolStart 2 "" "fetch", .usage 3 5, .toolInput 2 "\x7b\"a\"",
    .toolStart 0 "x" "sum", .toolStart 3 "y" "", .text "lo", .toolInput 2 ":1\x7d", .stop .toolUse]

/-- A stream that has the deltas of a call next to each other. -/
def sorted : List Delta :=
  [.text "Hello", .toolStart 0 "x" "sum", .toolStart 2 "" "fetch", .toolInput 2 "\x7b\"a\":1\x7d",
    .toolStart 3 "y" ""]

/-- The mixed stream makes the turn of the sorted one. -/
theorem turn_mixed : Orderly mixed ∧ Orderly sorted ∧ SameChannels mixed sorted ∧
    Turn.ofDeltas sorted = Turn.ofDeltas mixed ∧ (Turn.ofDeltas mixed).text = "Hello" ∧
    (Turn.ofDeltas mixed).calls =
      [⟨"x", "sum", .map []⟩, ⟨"call_2", "fetch", .map [("a", .int 1)]⟩] := by
  have hmixed : Orderly mixed := by decide
  have hsorted : Orderly sorted := by decide
  have hsame : SameChannels mixed sorted := by
    refine ⟨by decide +kernel, fun index id name => ?_, fun index id name hstart => ?_⟩
    · simp only [mixed, sorted, List.mem_cons, List.not_mem_nil, reduceCtorEq, or_false, false_or]
      tauto
    · simp only [mixed, List.mem_cons, List.not_mem_nil, reduceCtorEq, or_false, false_or,
        toolStart.injEq] at hstart
      obtain ⟨rfl, -⟩ | ⟨rfl, -⟩ | ⟨rfl, -⟩ := hstart <;> decide +kernel
  obtain ⟨-, htext, -, hothers⟩ := Turn.ofDeltas_channels hmixed
  refine ⟨hmixed, hsorted, hsame, hothers sorted hsorted hsame, htext.trans (by decide +kernel), ?_⟩
  decide +kernel

end Sample.Streaming

end AgentFlow
