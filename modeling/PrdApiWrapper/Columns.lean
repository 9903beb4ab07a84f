import PrdApiWrapper.Inserts

/-!
# Columns and their lengths

The columns of the tables have lengths, and the database refuses what is longer. The schemas of the
requests have bounds of their own: none on a model, and 2083 characters on a callback as it is sent,
where the column takes 2048 of the URL it is normalised to.
-/

namespace PrdApiWrapper

open Interaction

/-! ## Lengths -/

/-- The value of a status. -/
def JobStatus.value : JobStatus → String
  | .pending => "pending"
  | .running => "running"
  | .succeeded => "succeeded"
  | .failed => "failed"

/-- An insert whose values fit their columns. -/
def FitsColumns : Op → Prop
  | .record entry => entry.apiKeyId.length ≤ 32 ∧ entry.model.length ≤ 255
  | .createJob job => job.id.length ≤ 32 ∧ job.apiKeyId.length ≤ 32 ∧
      job.status.value.length ≤ 16 ∧ job.model.length ≤ 255 ∧ job.callbackUrl.length ≤ 2048
  | _ => True

/-- `secrets.token_hex(16)` has 32 characters. -/
def Draws : Event Service → Prop
  | ⟨.tokenHex, id⟩ => String.length id = 32
  | _ => True

/-- The named model fits its column. -/
def ModelFits (model : Option String) : Prop := ∀ text, model = some text → text.length ≤ 255

/-- What a request names fits the columns it is stored in. -/
def Route.Fits : Route → Prop
  | .complete request => ModelFits request.model
  | .submit request => ModelFits request.model ∧ request.callbackUrl.text.length ≤ 2048
  | .show _ => True

/-- The model that is stored fits exactly if the one that is named does. -/
theorem orElse_length_le_iff {model : Option String} {upstreamModel : String}
    (hdefault : upstreamModel.length ≤ 255) :
    (orElse model upstreamModel).length ≤ 255 ↔ ModelFits model := by
  cases model with
  | none => exact iff_of_true hdefault nofun
  | some text =>
    have hmodel : ModelFits (some text) ↔ text.length ≤ 255 :=
      ⟨fun h => h text rfl, fun h text' htext => Option.some.inj htext ▸ h⟩
    rw [orElse, hmodel]
    split
    · next hempty =>
      subst hempty
      exact iff_of_true hdefault (Nat.zero_le 255)
    · exact Iff.rfl

/-- Other requests draw nothing. -/
theorem draws_of_ne {ev : Event Service} (h : ev.op ≠ .tokenHex) : Draws ev := by
  obtain ⟨op, reply⟩ := ev
  cases op with
  | tokenHex => exact absurd rfl h
  | _ => trivial

/-! ## What is stored of a request -/

section

variable {env : Environment} {settings : Settings} {caller : Caller} {route : Route}

/-- An insert of a route fits if what the request names does. -/
theorem Inserts.fits {trace : List (Event Service)} {op : Op}
    (h : Inserts settings caller route trace op) (hdraws : ∀ ev ∈ trace, Draws ev)
    (hcaller : caller.id.length ≤ 32) (hdefault : settings.upstreamModel.length ≤ 255)
    (hfits : route.Fits) : FitsColumns op := by
  cases h with
  | other hother =>
    cases op with
    | record entry => cases hother
    | createJob job => cases hother
    | _ => trivial
  | @usage request statusCode started now usage hroute =>
    refine ⟨hcaller, (orElse_length_le_iff hdefault).mpr ?_⟩
    cases route with
    | complete payload =>
      cases hroute
      exact hfits
    | submit payload =>
      cases hroute
      exact hfits.1
    | «show» jobId => cases hroute
  | job id hroute hlast =>
    subst hroute
    have hid : id.length = 32 := hdraws _ (List.mem_of_getLast? hlast)
    have hstatus : JobStatus.pending.value.length ≤ 16 := by decide
    exact ⟨hid.le, hcaller, hstatus, (orElse_length_le_iff hdefault).mpr hfits.1, hfits.2⟩

/-- The traces that lead to the insert of a job draw as `token_hex` does. -/
theorem draws_of_creates {id : String} (hid : id.length = 32) {trace : List (Event Service)}
    (hchecks : ∀ ev ∈ trace, ev.op = .check caller.id) :
    ∀ ev ∈ trace ++ [⟨.tokenHex, id⟩], Draws ev := by
  intro ev hev
  rcases List.mem_append.mp hev with hev | hev
  · refine draws_of_ne ?_
    rw [hchecks ev hev]
    nofun
  · rw [List.mem_singleton.mp hev]
    exact hid

/-- A job id. -/
def someId : String := "264e4c2f751a8c99fbf777194f8a8657"

theorem someId_length : someId.length = 32 := by decide

/-- **When what the edge accepts can be stored.** For every validated request, every caller whose id
fits and every UPSTREAM_MODEL that fits: all rows the request can come to insert fit the columns of
their tables if and only if the model and the callback it names do. -/
theorem inserts_fit_iff (hcaller : caller.id.length ≤ 32)
    (hdefault : settings.upstreamModel.length ≤ 255) :
    (∀ trace op k, Prog.Steps (serve env settings route caller) trace (.op op k) →
      (∀ ev ∈ trace, Draws ev) → FitsColumns op) ↔ route.Fits := by
  refine ⟨?_, ?_⟩
  · intro h
    cases route with
    | complete request =>
      obtain ⟨trace, k, hsteps, hnone⟩ := serve_records env settings request caller
      have hfits := h _ _ k hsteps fun ev hev => draws_of_ne (hnone ev hev)
      exact (orElse_length_le_iff hdefault).mp hfits.2
    | submit request =>
      obtain ⟨trace, k, hsteps, hchecks⟩ := serve_creates env settings request caller someId
      obtain ⟨-, -, -, hmodel, hcallback⟩ :=
        h _ _ k hsteps (draws_of_creates someId_length hchecks)
      exact ⟨(orElse_length_le_iff hdefault).mp hmodel, hcallback⟩
    | «show» jobId => trivial
  · intro hfits trace op k hsteps hdraws
    exact (Prog.wp_guard serve_inserts hsteps).fits hdraws hcaller hdefault hfits

end

/-- The job of `hookRequest` can be stored. -/
theorem inserts_fit_hook :
    FitsColumns (.createJob (JobService.newJob someId hookRequest ⟨"k", "k"⟩ "llama3.2:3b")) := by
  obtain ⟨trace, k, hsteps, hchecks⟩ :=
    serve_creates .sample .defaults hookRequest ⟨"k", "k"⟩ someId
  have hfits : (Route.submit hookRequest).Fits := ⟨nofun, by decide⟩
  exact (inserts_fit_iff (by decide) (by decide)).mpr hfits _ _ k hsteps
    (draws_of_creates someId_length hchecks)

/-- A model with a name of `n` characters. -/
def modelOfLength (n : ℕ) : String := String.ofList (List.replicate n 'm')

theorem modelOfLength_length (n : ℕ) : (modelOfLength n).length = n := by
  rw [modelOfLength, String.length_ofList, List.length_replicate]

/-- A request for a model. -/
def requestFor (model : String) : JobRequest := { hookRequest with model := some model }

/-- The row of a request that names a model too long for its column does not fit. -/
theorem not_fits_of_long {model : String} (hlong : 255 < model.length) (id : String) :
    ¬ FitsColumns (.createJob (JobService.newJob id (requestFor model) ⟨"k", "k"⟩
      (orElse (requestFor model).model "llama3.2:3b"))) := by
  rintro ⟨-, -, -, hfits, -⟩
  have hmodel := (orElse_length_le_iff (by decide)).mp hfits model rfl
  omega

/-- A request for a model with a name of 256 characters is accepted, and comes to insert a job row
that does not fit. -/
theorem lengthy_model_not_stored : ∃ trace job k,
    Prog.Steps (serve .sample .defaults (.submit (requestFor (modelOfLength 256))) ⟨"k", "k"⟩) trace
      (.op (.createJob job) k) ∧
      (∀ ev ∈ trace, Draws ev) ∧ ¬ FitsColumns (.createJob job) := by
  obtain ⟨trace, k, hsteps, hchecks⟩ :=
    serve_creates .sample .defaults (requestFor (modelOfLength 256)) ⟨"k", "k"⟩ someId
  refine ⟨_, _, k, hsteps, draws_of_creates someId_length hchecks, not_fits_of_long ?_ someId⟩
  rw [modelOfLength_length]
  decide

end PrdApiWrapper
