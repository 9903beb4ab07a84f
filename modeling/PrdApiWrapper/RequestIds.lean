import PrdApiWrapper.Pattern
import PrdApiWrapper.Tracing
import Mathlib.Data.List.TakeWhile

/-!
# Request ids that come in

`RequestIdMiddleware._incoming_id` takes over an id that a client sends if `SAFE_REQUEST_ID` matches
it. The id is put into a header, an error envelope and the log lines, so it should have nothing in
it that breaks a line there. The pattern lets through exactly one kind of id that does: a safe one
followed by a line break, `incomingId_exact_iff`.
-/

namespace PrdApiWrapper

open Interaction

/-! ## Safe ids -/

/-- An ASCII letter, a digit, a dot, an underscore or a hyphen. -/
def SafeCharacter (c : Char) : Prop :=
  ('A' ≤ c ∧ c ≤ 'Z') ∨ ('a' ≤ c ∧ c ≤ 'z') ∨ ('0' ≤ c ∧ c ≤ '9') ∨ c = '.' ∨ c = '_' ∨ c = '-'

/-- The ids that are meant to be taken over. -/
structure SafeId (id : String) : Prop where
  length : 1 ≤ id.length ∧ id.length ≤ 64
  characters : ∀ c ∈ id.toList, SafeCharacter c

/-- A control character, or one that breaks a line. -/
def BreaksLine (c : Char) : Prop :=
  c.toNat < 32 ∨ (127 ≤ c.toNat ∧ c.toNat < 160) ∨ c.toNat = 8232 ∨ c.toNat = 8233

theorem safeCharacter_iff (c : Char) : safeCharacter c = true ↔ SafeCharacter c := by
  have hclass : safeCharacter c = (decide ('A' ≤ c ∧ c ≤ 'Z') ||
      (decide ('a' ≤ c) && decide (c ≤ 'z')) || (decide ('0' ≤ c) && decide (c ≤ '9')) ||
      c == '.' || c == '_' || c == '-') := rfl
  simp only [hclass, SafeCharacter, Bool.or_eq_true, Bool.and_eq_true, decide_eq_true_eq,
    beq_iff_eq, or_assoc]

theorem SafeCharacter.not_breaksLine {c : Char} (h : SafeCharacter c) : ¬ BreaksLine c := by
  have hrange : ∀ a b : Char, a ≤ c → c ≤ b → a.toNat ≤ c.toNat ∧ c.toNat ≤ b.toNat :=
    fun a b ha hb => ⟨ha, hb⟩
  rw [BreaksLine]
  rcases h with ⟨ha, hb⟩ | ⟨ha, hb⟩ | ⟨ha, hb⟩ | rfl | rfl | rfl
  · have hc := hrange _ _ ha hb
    simp only [Char.reduceToNat] at hc
    omega
  · have hc := hrange _ _ ha hb
    simp only [Char.reduceToNat] at hc
    omega
  · have hc := hrange _ _ ha hb
    simp only [Char.reduceToNat] at hc
    omega
  all_goals decide

/-- A generated id is safe. -/
theorem Uuid.safeId (fresh : Uuid) : SafeId fresh.hex where
  length := by
    rw [fresh.length_hex]
    decide
  characters c hc := by
    have hdigit := List.all_eq_true.mp fresh.digits c hc
    have hmem : c ∈ "0123456789abcdef".toList := List.contains_iff_mem.mp hdigit
    have hall : "0123456789abcdef".toList.all safeCharacter = true := by decide
    exact (safeCharacter_iff c).mp (List.all_eq_true.mp hall c hmem)

/-! ## The pattern -/

/-- `SAFE_REQUEST_ID`, `^[A-Za-z0-9._-]{1,64}$`. -/
def safeRequestIdPattern : Pattern :=
  .seq .start (.seq (.repeated (.ofClass safeCharacter) 1 64) .finish)

/-- What `safeRequestId` computes is whether the pattern matches. -/
theorem safeRequestId_iff_matches (candidate : String) :
    safeRequestId candidate = true ↔ safeRequestIdPattern.Matches candidate.toList := by
  simp only [safeRequestIdPattern, Pattern.matches_anchored, safeRequestId, Bool.and_eq_true,
    Bool.or_eq_true, decide_eq_true_eq, beq_iff_eq]
  refine ⟨?_, ?_⟩
  · rintro ⟨⟨hmin, hmax⟩, hrest⟩
    refine ⟨_, ⟨hmin, hmax, fun c hc => List.mem_takeWhile_imp hc⟩, ?_⟩
    have hsplit := List.takeWhile_append_dropWhile (p := safeCharacter) (l := candidate.toList)
    rcases hrest with hrest | hrest
    · rw [hrest, List.append_nil] at hsplit
      exact .inl hsplit.symm
    · rw [hrest] at hsplit
      exact .inr hsplit.symm
  · rintro ⟨run, ⟨hmin, hmax, hmember⟩, htext⟩
    -- the class does not have the line break, so the longest run is the only one
    rcases htext with htext | htext
    · rw [htext, List.takeWhile_eq_self_iff.mpr hmember, List.dropWhile_eq_nil_iff.mpr hmember]
      exact ⟨⟨hmin, hmax⟩, .inl rfl⟩
    · rw [htext, List.takeWhile_append_of_pos hmember, List.dropWhile_append_of_pos hmember]
      have hbreak : safeCharacter '\n' = false := by decide
      simp only [List.takeWhile_cons, List.dropWhile_cons, hbreak, Bool.false_eq_true, if_false,
        List.append_nil]
      exact ⟨⟨hmin, hmax⟩, .inr trivial⟩

/-- The ids that are taken over: the safe ones, and those with a line break after them. -/
theorem safeRequestId_iff (candidate : String) : safeRequestId candidate = true ↔
    SafeId candidate ∨ ∃ id, SafeId id ∧ candidate = id ++ "\n" := by
  have hsafe : ∀ text : String, SafeId text ↔ 1 ≤ text.toList.length ∧ text.toList.length ≤ 64 ∧
      ∀ c ∈ text.toList, safeCharacter c = true := by
    intro text
    simp only [safeCharacter_iff, String.length_toList]
    exact ⟨fun h => ⟨h.length.1, h.length.2, h.characters⟩, fun h => ⟨⟨h.1, h.2.1⟩, h.2.2⟩⟩
  rw [safeRequestId_iff_matches, safeRequestIdPattern, Pattern.matches_anchored]
  refine ⟨?_, ?_⟩
  · rintro ⟨run, hrun, htext⟩
    rcases htext with rfl | htext
    · exact .inl ((hsafe candidate).mpr hrun)
    · refine .inr ⟨String.ofList run, (hsafe _).mpr (by rwa [String.toList_ofList]), ?_⟩
      rw [← String.toList_inj, String.toList_append, String.toList_ofList, htext]
      rfl
  · rintro (h | ⟨id, h, rfl⟩)
    · exact ⟨candidate.toList, (hsafe candidate).mp h, .inl rfl⟩
    · exact ⟨id.toList, (hsafe id).mp h, .inr String.toList_append⟩

theorem incomingId_eq {request : HttpRequest} {candidate : String}
    (hsent : getHeader "X-Request-ID" request.headers = some candidate) :
    incomingId request = if safeRequestId candidate = true then some candidate else none := by
  have hempty : safeRequestId candidate = true → candidate ≠ "" := by
    rintro h rfl
    exact absurd h (by decide)
  rw [incomingId]
  rw [hsent]
  by_cases h : safeRequestId candidate = true
  · simp [h, hempty h]
  · simp [h]

/-! ## Where ids go -/

/-- The id is in the header of an answer, in its error envelope, or in a log line. -/
def Echoes (response : Response) (scope : Scope) (id : String) : Prop :=
  getHeader "X-Request-ID" response.headers = some id ∨
    (∃ envelope, response.envelope = some envelope ∧ envelope.requestId = some id) ∨
    ∃ line ∈ scope.log, line.requestId = some id

variable {lib : Libraries} {id other : String} {response : Response} {scope : Scope}

theorem Traced.echoes (h : Traced id response scope) (hother : Echoes response scope other) :
    other = id := by
  rcases hother with hheader | ⟨envelope, henvelope, hquoted⟩ | ⟨line, hline, hlogged⟩
  · exact Option.some.inj (hheader.symm.trans h.header)
  · exact Option.some.inj (hquoted.symm.trans (h.quotes envelope henvelope))
  · exact Option.some.inj (hlogged.symm.trans (h.log line hline))

/-- The layer for what nothing else handles has no other id to put anywhere. -/
theorem Bound.last_resort (hbound : Bound id scope) {ending : Ending}
    (hcollected : scope.responseHeaders = ending.collected) (hencodes : lib.encodes id = true)
    (debug : Bool) (request : HttpRequest) :
    (if debug then pure ⟨500, [], none⟩
      else unhandledErrorHandler lib request : Layered Response).wp
      (fun response scope' => ∀ other, Echoes response scope' other → other = id)
      (fun _ _ => False) none scope := by
  split
  · rintro other (hheader | ⟨_, henvelope, _⟩ | ⟨line, hline, hlogged⟩)
    · cases hheader
    · cases henvelope
    · exact Option.some.inj (hlogged.symm.trans (hbound.log line hline))
  · rw [wp_unhandledErrorHandler request (hcollected ▸ ending.encodable_collected)
      (by rw [hbound.requestId]; exact hencodes)]
    rintro other (hheader | ⟨envelope, henvelope, hquoted⟩ | ⟨line, hline, hlogged⟩)
    · have hnone := getHeader_collected ending
      rw [← hcollected] at hnone
      rw [hnone] at hheader
      cases hheader
    · cases henvelope
      have hfilter : (some id).filter (· ≠ "") = some other := by rwa [← hbound.requestId]
      exact (Option.some.inj (Option.filter_eq_some_iff.mp hfilter).1).symm
    · rcases List.mem_append.mp hline with hline | hline
      · exact Option.some.inj (hlogged.symm.trans (hbound.log line hline))
      · obtain rfl := List.mem_singleton.mp hline
        cases hlogged

/-- **The layers** answer every request, and the only id in what they answer and log is the one that
was assigned. -/
theorem wp_createApp_echoes (lib : Libraries) (debug : Bool) (fresh : Uuid) (cors : CorsMiddleware)
    (routes : HttpRequest → Ending) (request : HttpRequest) :
    (createApp lib debug fresh cors routes request).wp
      (fun response scope' => ∀ other, Echoes response scope' other →
        other = assignedId fresh request) (fun _ _ => False) none .start := by
  rw [createApp_layers, serverErrorMiddleware, Contextual.wp_tryCatch]
  by_cases hpreflight : request.IsPreflight
  · have horigin : (getHeader "Origin" request.headers).isNone = false := by
      simpa using hpreflight.1
    rw [CorsMiddleware.wrap, horigin, if_neg Bool.false_ne_true, if_pos hpreflight]
    rintro other (hheader | ⟨envelope, henvelope, _⟩ | ⟨line, hline, _⟩)
    · rw [getHeader_preflight] at hheader
      cases hheader
    · rw [(cors.preflightResponse request).2] at henvelope
      cases henvelope
    · simp [Scope.start] at hline
  · have hwrapped := wp_wrap cors hpreflight
      (fun response scope' h => ⟨h.1, h.2.updateHeaders (cors.simple_cors request response)⟩)
      (@wp_requestIdMiddleware lib fresh routes request)
    refine Contextual.wp_mono ?_ ?_ hwrapped
    · exact fun _ _ h other hother => h.2.echoes hother
    · exact fun _ _ h =>
        h.2.1.last_resort h.2.2 (assignedId_encodes lib fresh request) debug request

/-- What is put anywhere of an id that came in. -/
theorem echoes_of_createApp {debug : Bool} {fresh : Uuid} {cors : CorsMiddleware}
    {routes : HttpRequest → Ending} {request : HttpRequest} {scope : Scope}
    (hexec : (createApp lib debug fresh cors routes request).exec none .start =
      (.ok response, scope))
    (hecho : Echoes response scope id) : id = assignedId fresh request := by
  obtain ⟨response', scope', hexec', honly⟩ :=
    Contextual.exec_of_wp (wp_createApp_echoes lib debug fresh cors routes request)
  rw [hexec] at hexec'
  cases hexec'
  exact honly id hecho

/-! ## The grammar -/

/-- What should become of an id that is sent: it is taken over exactly if it is safe, and nothing
that breaks a line is put anywhere. -/
structure TakenOver (lib : Libraries) (debug : Bool) (fresh : Uuid) (cors : CorsMiddleware)
    (routes : HttpRequest → Ending) (request : HttpRequest) (candidate : String) : Prop where
  accepted : incomingId request = some candidate ↔ SafeId candidate
  refused : ¬ SafeId candidate → incomingId request = none
  harmless : ∀ response scope id,
    (createApp lib debug fresh cors routes request).exec none .start = (.ok response, scope) →
    Echoes response scope id → ∀ c ∈ id.toList, ¬ BreaksLine c

/-- **The pattern is the grammar** except for a line break at the end. -/
theorem incomingId_exact_iff (lib : Libraries) (debug : Bool) (fresh : Uuid)
    (cors : CorsMiddleware) (routes : HttpRequest → Ending) (request : HttpRequest)
    (candidate : String)
    (hsent : getHeader "X-Request-ID" request.headers = some candidate) :
    TakenOver lib debug fresh cors routes request candidate ↔
      ¬ ∃ id, SafeId id ∧ candidate = id ++ "\n" := by
  have hincoming := incomingId_eq hsent
  refine ⟨?_, ?_⟩
  · rintro htaken ⟨id, hid, rfl⟩
    have hmatch : safeRequestId (id ++ "\n") = true :=
      (safeRequestId_iff _).mpr (.inr ⟨id, hid, rfl⟩)
    rw [if_pos hmatch] at hincoming
    have hsafe := (htaken.accepted.mp hincoming).characters '\n' (by simp)
    exact absurd ((safeCharacter_iff _).mpr hsafe) (by decide)
  · intro hbreak
    have hmatch : safeRequestId candidate = true ↔ SafeId candidate :=
      (safeRequestId_iff candidate).trans (or_iff_left hbreak)
    have hassigned : SafeId (assignedId fresh request) := by
      unfold assignedId orElse
      rw [hincoming]
      by_cases h : safeRequestId candidate = true
      · rw [if_pos h]
        by_cases hempty : candidate = ""
        · simpa [hempty] using fresh.safeId
        · simpa [hempty] using hmatch.mp h
      · rw [if_neg h]
        exact fresh.safeId
    refine ⟨?_, ?_, ?_⟩
    · rw [hincoming, ← hmatch]
      simp
    · intro hunsafe
      rw [hincoming, if_neg (mt hmatch.mp hunsafe)]
    · intro response scope id hexec hecho c hc
      rw [echoes_of_createApp hexec hecho] at hc
      exact (hassigned.characters c hc).not_breaksLine

/-- Routes that answer. -/
def healthy : HttpRequest → Ending := fun _ => ⟨[], none, .ok ⟨⟨200, [], none⟩, rfl⟩⟩

/-- An id is taken over. -/
theorem incomingId_exact_trace :
    TakenOver Environment.sample.toLibraries false .sample .allowAll healthy
        ⟨"GET", "/health", [("x-request-id", "trace-1")]⟩ "trace-1" ↔
      ¬ ∃ id, SafeId id ∧ "trace-1" = id ++ "\n" :=
  incomingId_exact_iff Environment.sample.toLibraries false .sample .allowAll healthy
    ⟨"GET", "/health", [("x-request-id", "trace-1")]⟩ "trace-1" rfl

/-- So is one with a line break after it, and it goes into the header of the answer. -/
theorem line_break_taken_over : ¬ SafeId "abc\n" ∧
    getHeader "X-Request-ID" [("x-request-id", "abc\n")] = some "abc\n" ∧
    incomingId ⟨"GET", "/health", [("x-request-id", "abc\n")]⟩ = some "abc\n" ∧
    ∃ response scope, (createApp Environment.sample.toLibraries false .sample .allowAll healthy
        ⟨"GET", "/health", [("x-request-id", "abc\n")]⟩).exec none .start = (.ok response, scope) ∧
      Echoes response scope "abc\n" ∧ BreaksLine '\n' := by
  refine ⟨?_, rfl, by decide, _, _, rfl, .inl (by decide), .inl (by decide)⟩
  intro h
  exact absurd ((safeCharacter_iff _).mpr (h.characters '\n' (by decide))) (by decide)

end PrdApiWrapper
