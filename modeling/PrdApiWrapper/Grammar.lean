import PrdApiWrapper.Service

/-!
# The grammar of a completion

What the provider has to answer for the answer to be a completion, said without the steps that
read it: `IsCompletion`. An answer that is not an error becomes exactly the completion it is, and
`InvalidUpstreamResponse` if it is none: `callUpstream_grammar`.

Each step of the reader has a lemma that says when it gets something and what. Nothing else is used
of the steps.
-/

namespace PrdApiWrapper

open Interaction

/-! ## The grammar -/

/-- What a usage object says of a count: 0 if it does not mention it. -/
inductive IsCount (lib : Libraries) (usage : List (String × Json)) (key : String) : ℤ → Prop where
  | absent : lookup key usage = none → IsCount lib usage key 0
  | accepted {value : Json} {count : ℤ} : lookup key usage = some value →
      lib.intField value = some count → IsCount lib usage key count

/-- What a body says of the usage: nothing, something that counts as false, or both counts. -/
inductive IsUsage (lib : Libraries) (body : List (String × Json)) : CompletionUsage → Prop where
  | absent : lookup "usage" body = none → IsUsage lib body ⟨0, 0⟩
  | falsy {value : Json} : lookup "usage" body = some value → value.truthy = false →
      IsUsage lib body ⟨0, 0⟩
  | object {fields : List (String × Json)} {usage : CompletionUsage} :
      lookup "usage" body = some (.obj fields) →
      IsCount lib fields "prompt_tokens" usage.promptTokens →
      IsCount lib fields "completion_tokens" usage.completionTokens → IsUsage lib body usage

/-- The bodies that are completions. -/
inductive IsCompletion (lib : Libraries) : Json → CompletionResponse → Prop where
  | object {body choice message : List (String × Json)} {choices : List Json}
      {completion : CompletionResponse} :
      lookup "id" body = some (.str completion.id) →
      lookup "model" body = some (.str completion.model) →
      lookup "choices" body = some (.arr (.obj choice :: choices)) →
      lookup "message" choice = some (.obj message) →
      lookup "content" message = some (.str completion.content) →
      IsUsage lib body completion.usage → IsCompletion lib (.obj body) completion

/-- pydantic takes an integer for an `int` field as it is. -/
def AcceptsInts (lib : Libraries) : Prop := ∀ n, lib.intField (.int n) = some n

/-! ## What the steps get -/

theorem Json.asStr_eq_some {data : Json} {text : String} :
    data.asStr = some text ↔ data = .str text := by
  cases data <;> simp [asStr]

theorem Json.item_eq_ok {data : Json} {key : String} {value : Json} :
    data.item key = .ok value ↔ ∃ fields, data = .obj fields ∧ lookup key fields = some value := by
  cases data with
  | obj fields =>
    simp only [item, obj.injEq, exists_eq_left']
    cases lookup key fields <;> simp
  | _ => simp [item]

/-- Of the first element, only an object has items. -/
theorem Json.first_item_eq_ok {data : Json} {key : String} {value : Json} :
    (∃ choice, data.first = .ok choice ∧ choice.item key = .ok value) ↔
      ∃ choice rest, data = .arr (.obj choice :: rest) ∧ lookup key choice = some value := by
  refine ⟨?_, ?_⟩
  · rintro ⟨choice, hfirst, hitem⟩
    obtain ⟨fields, rfl, hvalue⟩ := item_eq_ok.mp hitem
    unfold first at hfirst
    split at hfirst
    · cases hfirst
    · cases hfirst
      exact ⟨fields, _, rfl, hvalue⟩
    · -- a character is no object
      split at hfirst <;> cases hfirst
    · cases hfirst
    · cases hfirst
  · rintro ⟨choice, rest, rfl, hvalue⟩
    exact ⟨.obj choice, rfl, item_eq_ok.mpr ⟨choice, rfl, hvalue⟩⟩

theorem Json.get_eq_ok {data : Json} {key : String} {default value : Json} :
    data.get key default = .ok value ↔
      ∃ fields, data = .obj fields ∧ (lookup key fields).getD default = value := by
  cases data <;> simp [get]

theorem CompletionUsage.validate_eq_ok {lib : Libraries} {promptTokens completionTokens : Json}
    {usage : CompletionUsage} :
    CompletionUsage.validate lib promptTokens completionTokens = .ok usage ↔
      lib.intField promptTokens = some usage.promptTokens ∧
        lib.intField completionTokens = some usage.completionTokens := by
  obtain ⟨prompt, completion⟩ := usage
  rw [CompletionUsage.validate]
  cases lib.intField promptTokens <;> cases lib.intField completionTokens <;> simp

theorem CompletionResponse.validate_eq_ok {id model content : Json} {usage : CompletionUsage}
    {completion : CompletionResponse} :
    CompletionResponse.validate id model content usage = .ok completion ↔
      id = .str completion.id ∧ model = .str completion.model ∧
        content = .str completion.content ∧ usage = completion.usage := by
  obtain ⟨id', model', content', usage'⟩ := completion
  rw [← Json.asStr_eq_some, ← Json.asStr_eq_some, ← Json.asStr_eq_some]
  rw [CompletionResponse.validate]
  cases id.asStr <;> cases model.asStr <;> cases content.asStr <;> simp

/-! ## The usage -/

variable {lib : Libraries} {body : List (String × Json)}

/-- A count that is not mentioned is validated as the default it is given. -/
theorem isCount_iff (hints : AcceptsInts lib) {usage : List (String × Json)} {key : String}
    {count : ℤ} : IsCount lib usage key count ↔
      lib.intField ((lookup key usage).getD (.int 0)) = some count := by
  refine ⟨?_, ?_⟩
  · rintro (habsent | ⟨hvalue, haccepted⟩)
    · rw [habsent]
      exact hints 0
    · rw [hvalue]
      exact haccepted
  · intro h
    cases hvalue : lookup key usage with
    | none =>
      rw [hvalue, Option.getD_none, hints 0] at h
      cases h
      exact .absent hvalue
    | some value =>
      rw [hvalue] at h
      exact .accepted hvalue h

theorem isCount_nil {key : String} {count : ℤ} : IsCount lib [] key count ↔ count = 0 := by
  refine ⟨?_, ?_⟩
  · rintro (_ | ⟨hvalue, _⟩)
    · rfl
    · simp [lookup] at hvalue
  · rintro rfl
    exact .absent rfl

/-- The usage is read off the object that `or {}` leaves. -/
theorem isUsage_iff {usage : CompletionUsage} : IsUsage lib body usage ↔
    ∃ fields, usageOf body = .obj fields ∧ IsCount lib fields "prompt_tokens" usage.promptTokens ∧
      IsCount lib fields "completion_tokens" usage.completionTokens := by
  refine ⟨?_, ?_⟩
  · rintro (habsent | ⟨hvalue, hfalsy⟩ | ⟨hfields, hprompt, hcompletion⟩)
    · exact ⟨[], by simp [usageOf, habsent, Json.truthy], isCount_nil.mpr rfl, isCount_nil.mpr rfl⟩
    · exact ⟨[], by simp [usageOf, hvalue, hfalsy], isCount_nil.mpr rfl, isCount_nil.mpr rfl⟩
    · rename_i fields
      refine ⟨fields, ?_, hprompt, hcompletion⟩
      -- an empty object is replaced by another
      cases fields <;> simp [usageOf, hfields, Json.truthy]
  · rintro ⟨fields, husage, hprompt, hcompletion⟩
    by_cases htruthy : ((lookup "usage" body).getD .null).truthy = true
    · simp only [usageOf, htruthy, if_true] at husage
      cases hvalue : lookup "usage" body with
      | none =>
        rw [hvalue] at husage
        cases husage
      | some value =>
        rw [hvalue, Option.getD_some] at husage
        exact .object (husage ▸ hvalue) hprompt hcompletion
    · simp only [usageOf, htruthy] at husage
      obtain rfl := Json.obj.inj husage
      obtain ⟨prompt, completion⟩ := usage
      obtain rfl := isCount_nil.mp hprompt
      obtain rfl := isCount_nil.mp hcompletion
      cases hvalue : lookup "usage" body with
      | none => exact .absent hvalue
      | some value =>
        rw [hvalue, Option.getD_some] at htruthy
        exact .falsy hvalue (Bool.not_eq_true _ ▸ htruthy)

/-! ## The body -/

/-- The reader gets what the grammar says. -/
theorem readBody_eq_ok (hints : AcceptsInts lib) {completion : CompletionResponse} :
    readBody lib body = .ok completion ↔ IsCompletion lib (.obj body) completion := by
  refine ⟨?_, ?_⟩
  · intro h
    rw [readBody] at h
    obtain ⟨id, hid, h⟩ := bind_eq_ok.mp h
    obtain ⟨model, hmodel, h⟩ := bind_eq_ok.mp h
    obtain ⟨choices, hchoices, h⟩ := bind_eq_ok.mp h
    obtain ⟨choice, hchoice, h⟩ := bind_eq_ok.mp h
    obtain ⟨message, hmessage, h⟩ := bind_eq_ok.mp h
    obtain ⟨content, hcontent, h⟩ := bind_eq_ok.mp h
    obtain ⟨promptTokens, hprompt, h⟩ := bind_eq_ok.mp h
    obtain ⟨completionTokens, hcompletion, h⟩ := bind_eq_ok.mp h
    obtain ⟨usage, husage, h⟩ := bind_eq_ok.mp h
    obtain ⟨rfl, rfl, rfl, rfl⟩ := CompletionResponse.validate_eq_ok.mp h
    obtain ⟨hpromptTokens, hcompletionTokens⟩ := CompletionUsage.validate_eq_ok.mp husage
    obtain ⟨_, hbody, hid⟩ := Json.item_eq_ok.mp hid
    cases hbody
    obtain ⟨_, hbody, hmodel⟩ := Json.item_eq_ok.mp hmodel
    cases hbody
    obtain ⟨_, hbody, hchoices⟩ := Json.item_eq_ok.mp hchoices
    cases hbody
    obtain ⟨choice, rest, rfl, hmessage⟩ := Json.first_item_eq_ok.mp ⟨choice, hchoice, hmessage⟩
    obtain ⟨message, rfl, htext⟩ := Json.item_eq_ok.mp hcontent
    obtain ⟨fields, hfields, rfl⟩ := Json.get_eq_ok.mp hprompt
    obtain ⟨fields', hfields', rfl⟩ := Json.get_eq_ok.mp hcompletion
    obtain rfl := Json.obj.inj (hfields.symm.trans hfields')
    exact .object hid hmodel hchoices hmessage htext (isUsage_iff.mpr
      ⟨fields, hfields, (isCount_iff hints).mpr hpromptTokens,
        (isCount_iff hints).mpr hcompletionTokens⟩)
  · rintro ⟨hid, hmodel, hchoices, hmessage, hcontent, husage⟩
    obtain ⟨fields, hfields, hprompt, hcompletion⟩ := isUsage_iff.mp husage
    obtain ⟨choice, hchoice, hmessage⟩ := Json.first_item_eq_ok.mpr ⟨_, _, rfl, hmessage⟩
    have hitem : ∀ {key : String} {fields : List (String × Json)} {value : Json},
        lookup key fields = some value → (Json.obj fields).item key = .ok value :=
      fun h => Json.item_eq_ok.mpr ⟨_, rfl, h⟩
    refine bind_eq_ok.mpr ⟨_, hitem hid, bind_eq_ok.mpr ⟨_, hitem hmodel, ?_⟩⟩
    refine bind_eq_ok.mpr ⟨_, hitem hchoices, bind_eq_ok.mpr ⟨choice, hchoice, ?_⟩⟩
    refine bind_eq_ok.mpr ⟨_, hmessage, bind_eq_ok.mpr ⟨_, hitem hcontent, ?_⟩⟩
    refine bind_eq_ok.mpr ⟨_, Json.get_eq_ok.mpr ⟨fields, hfields, rfl⟩, ?_⟩
    refine bind_eq_ok.mpr ⟨_, Json.get_eq_ok.mpr ⟨fields, hfields, rfl⟩, ?_⟩
    refine bind_eq_ok.mpr ⟨completion.usage, CompletionUsage.validate_eq_ok.mpr
      ⟨(isCount_iff hints).mp hprompt, (isCount_iff hints).mp hcompletion⟩, ?_⟩
    exact CompletionResponse.validate_eq_ok.mpr ⟨rfl, rfl, rfl, rfl⟩

/-- `_to_response` gets what the grammar says. -/
theorem toResponse_eq_ok (hints : AcceptsInts lib) {data : Json} {completion : CompletionResponse} :
    toResponse lib data = .ok completion ↔ IsCompletion lib data completion := by
  cases data with
  | obj body =>
    rw [toResponse]
    rw [orInvalid_eq_ok, readBody_eq_ok hints]
  | _ =>
    refine ⟨?_, ?_⟩
    · exact nofun
    · rintro ⟨⟩

/-! ## The answer -/

/-- **Answers are parsed by one grammar.** Whenever the POST ends in a response that is not an
error and whose decoding raises no more than a `ValueError`, the call ends too: in a completion
exactly if the body is that completion, and otherwise in `InvalidUpstreamResponse`. -/
theorem callUpstream_grammar {S : Effects} (service : CompletionService S)
    (payload : UpstreamPayload) (model : String) {trace : List (Event S)} {response : HttpResponse}
    (hints : AcceptsInts service.lib)
    (hpost : Prog.Steps (service.post payload) trace (.ret (.response response)))
    (herror : response.isError = false) (hreadable : response.Readable) :
    ∃ result, Prog.Steps (service.callUpstream payload model).run trace (.ret result) ∧
      (∀ completion, result = .ok completion ↔
        ∃ body, response.json = .ok body ∧ IsCompletion service.lib body completion) ∧
      ∀ exc, result = .error exc → exc = .app (.new .invalidUpstreamResponse) := by
  have hnot : ¬ response.isError = true := by simp [herror]
  refine ⟨received service.lib model (.response response),
    hpost.bind fun outcome => .ret (received service.lib model outcome), ?_, ?_⟩
  · intro completion
    rw [received_response hnot hreadable]
    cases hjson : response.json with
    | error raised => simp [Except.toOption]
    | ok body => simp [Except.toOption, toResponse_eq_ok hints]
  · intro exc hexc
    rcases received_response_cases service.lib model hnot hreadable with ⟨completion, h⟩ | h
    · rw [h] at hexc
      cases hexc
    · rw [h] at hexc
      cases hexc
      rfl

/-- An answer is a completion. -/
theorem callUpstream_grammar_hello : ∃ result,
    Prog.Steps ((completionService Environment.sample Settings.defaults).callUpstream
        ⟨"llama3.2:3b", "Say hello.", 7 / 10, none⟩ "llama3.2:3b").run
      [⟨.post ⟨"llama3.2:3b", "Say hello.", 7 / 10, none⟩, ()⟩, ⟨.answer, .response helloResponse⟩]
      (.ret result) ∧
    (∀ completion, result = .ok completion ↔ ∃ body, helloResponse.json = .ok body ∧
      IsCompletion Environment.sample.toLibraries body completion) ∧
    ∀ exc, result = .error exc → exc = .app (.new .invalidUpstreamResponse) :=
  callUpstream_grammar (completionService Environment.sample Settings.defaults) _ _
    (fun _ => rfl) (.cons (.cons (.refl _))) rfl nofun

end PrdApiWrapper
