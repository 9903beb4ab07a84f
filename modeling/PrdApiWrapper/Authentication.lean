import PrdApiWrapper.ApiKeys
import Mathlib.Data.List.Nodup

/-!
# Which keys authenticate

A key is only stored as its digest, and a presented value is looked up by its own. `authenticate`
should let in exactly the keys that are live in the table, each as the row it was stored in:
`authentication_exact`. The table is whatever became of an empty one by adding and revoking. What
makes the lookup exact is that no two rows share an id or a digest, which every step keeps.
-/

namespace PrdApiWrapper

open Interaction

/-! ## Digests -/

/-- The digits of `hexdigest`. -/
def hexDigits : List Char := "0123456789abcdef".toList

/-- A SHA-256 digest as `hexdigest` writes it. -/
def IsHexdigest (text : String) : Prop :=
  text.length = 64 ∧ ∀ c ∈ text.toList, c ∈ hexDigits

theorem isHexdigest_of_all {text : String} (hlength : text.length = 64)
    (h : (text.toList.all fun c => hexDigits.contains c) = true) : IsHexdigest text :=
  ⟨hlength, fun c hc => List.contains_iff_mem.mp (List.all_eq_true.mp h c hc)⟩

/-- A digest is written in lower case. -/
theorem IsHexdigest.toLower {text : String} (h : IsHexdigest text) : text.toLower = text := by
  have hdigits : (hexDigits.all fun c => c.toLower == c) = true := by decide
  have hdigit : ∀ c ∈ hexDigits, c.toLower = c := fun c hc =>
    eq_of_beq (List.all_eq_true.mp hdigits c hc)
  apply String.toList_injective
  delta String.toLower
  rw [String.toList_map]
  exact (List.map_congr_left fun c hc => hdigit c (h.2 c hc)).trans (List.map_id _)

/-- Only ASCII letters are lowered to digits. -/
theorem ascii_of_toLower {c : Char} (h : c.toLower ∈ hexDigits) : c.val < 128 := by
  have hdigits : (hexDigits.all fun c => decide (c.val < 128)) = true := by decide
  unfold Char.toLower at h
  split at h
  · next hupper => exact UInt32.lt_of_le_of_lt hupper.2 (by decide)
  · exact of_decide_eq_true (List.all_eq_true.mp hdigits c h)

/-- A digest in any letter case is folded to the digest. -/
theorem IsHexdigest.lower_eq {lower : String → String} (hlower : LowersAscii lower) {text : String}
    (h : IsHexdigest text.toLower) : lower text = text.toLower := by
  refine hlower text (List.all_eq_true.mpr fun c hc => ?_)
  have hmem : c.toLower ∈ text.toLower.toList := by
    delta String.toLower
    rw [String.toList_map]
    exact List.mem_map_of_mem hc
  exact decide_eq_true (ascii_of_toLower (h.2 _ hmem))

/-- What is relied on of `hash_api_key`: its results are digests, and no two of the keys in play
have the same. (All strings cannot be in play: there are more of them than digests.) -/
structure Digests (hash : String → String) (keys : Set String) : Prop where
  hexdigest : ∀ key, IsHexdigest (hash key)
  injective : Set.InjOn hash keys

/-- A digest is folded to itself. -/
theorem Digests.lower {hash lower : String → String} {keys : Set String}
    (digests : Digests hash keys) (hlower : LowersAscii lower) (key : String) :
    lower (hash key) = hash key := by
  have hsame := (digests.hexdigest key).toLower
  rw [IsHexdigest.lower_eq hlower (hsame.symm ▸ digests.hexdigest key), hsame]

/-- `mint_key(name)`, given what `token_urlsafe(32)` and `token_hex(4)` draw. -/
def mintKey {hash : String → String} {keys : Set String}
    (digests : Digests hash keys) (name tokenUrlsafe tokenHex : String) :
    String × ApiKeyRecord :=
  let key := "sk-" ++ tokenUrlsafe
  (key, ⟨tokenHex, name, hash key, (digests.hexdigest key).1⟩)

/-! ## Histories of the key table -/

/-- What is done to the key table. -/
inductive KeyEvent where
  /-- a record is added; the database may refuse it -/
  | add (record : ApiKeyRecord)
  /-- a row is revoked -/
  | revoke (id : String) (now : ℚ)

namespace KeyTable

variable (lower : String → String)

/-- The table after an event. -/
def step (table : KeyTable) : KeyEvent → KeyTable
  | .add record => (table.add lower record).toOption.getD table
  | .revoke id now => table.revoke id now

/-- The table after a history, the earliest event first. -/
def after (table : KeyTable) (history : List KeyEvent) : KeyTable :=
  history.foldl (step lower) table

/-- No two rows share an id or a digest. -/
structure Unique (table : KeyTable) : Prop where
  ids : (table.map ApiKey.id).Nodup
  keyHashes : (table.map ApiKey.keyHash).Nodup

variable {lower} {table table' : KeyTable}

theorem after_append (table : KeyTable) (history history' : List KeyEvent) :
    table.after lower (history ++ history') = (table.after lower history).after lower history' :=
  List.foldl_append

/-- **What an accepted `add` does**: a row that shares nothing with the others is put at the end. -/
theorem add_eq_ok {record : ApiKeyRecord} (h : table.add lower record = .ok table') :
    table' = table ++ [⟨record.id, record.name, lower record.keyHash, none⟩] ∧
      ∀ row ∈ table, row.id ≠ record.id ∧ row.keyHash ≠ lower record.keyHash := by
  rw [KeyTable.add] at h
  split at h
  · cases h
  · split at h
    · cases h
    · next hfresh =>
      cases h
      refine ⟨rfl, fun row hrow => ⟨?_, ?_⟩⟩
      · intro hid
        exact hfresh (List.any_eq_true.mpr ⟨row, hrow, by simp [hid]⟩)
      · intro hhash
        exact hfresh (List.any_eq_true.mpr ⟨row, hrow, by simp [hhash]⟩)

/-- A record that fits its columns and shares nothing with a row is accepted. -/
theorem add_of_fresh {record : ApiKeyRecord} (hid : record.id.length ≤ 32)
    (hname : record.name.length ≤ 255) (hhash : (lower record.keyHash).length ≤ 64)
    (hfresh : ∀ row ∈ table, row.id ≠ record.id ∧ row.keyHash ≠ lower record.keyHash) :
    table.add lower record =
      .ok (table ++ [⟨record.id, record.name, lower record.keyHash, none⟩]) := by
  rw [KeyTable.add, if_neg, if_neg]
  · intro hany
    obtain ⟨row, hrow, hsame⟩ := List.any_eq_true.mp hany
    simp only [Bool.or_eq_true, beq_iff_eq] at hsame
    rcases hsame with hsame | hsame
    · exact (hfresh row hrow).1 hsame
    · exact (hfresh row hrow).2 hsame
  · omega

theorem step_add (record : ApiKeyRecord) :
    table.step lower (.add record) = table ∨
      table.add lower record = .ok (table.step lower (.add record)) := by
  rw [step]
  cases table.add lower record with
  | ok table' => exact .inr rfl
  | error name => exact .inl rfl

theorem revoke_map {β : Type} (f : ApiKey → β)
    (hf : ∀ row now, f { row with revokedAt := some now } = f row) (id : String) (now : ℚ) :
    (table.revoke id now).map f = table.map f := by
  rw [revoke, List.map_map]
  refine List.map_congr_left fun row _ => ?_
  simp only [Function.comp_apply]
  split
  · exact hf row now
  · rfl

theorem nodup_map_concat {f : ApiKey → String} {row : ApiKey} (h : (table.map f).Nodup)
    (hfresh : ∀ row' ∈ table, f row' ≠ f row) : ((table ++ [row]).map f).Nodup := by
  rw [List.map_append, List.nodup_append]
  refine ⟨h, List.nodup_singleton _, ?_⟩
  intro value hvalue value' hvalue'
  obtain ⟨row', hrow', rfl⟩ := List.mem_map.mp hvalue
  obtain rfl := List.mem_singleton.mp hvalue'
  exact hfresh row' hrow'

/-- Every event keeps ids and digests unique. -/
theorem Unique.step (h : table.Unique) (event : KeyEvent) : (table.step lower event).Unique := by
  cases event with
  | add record =>
    rcases step_add record with hsame | hadd
    · rw [hsame]
      exact h
    · obtain ⟨htable, hfresh⟩ := add_eq_ok hadd
      rw [htable]
      exact ⟨nodup_map_concat h.ids fun row hrow => (hfresh row hrow).1,
        nodup_map_concat h.keyHashes fun row hrow => (hfresh row hrow).2⟩
  | revoke id now =>
    refine ⟨?_, ?_⟩
    · rw [KeyTable.step, revoke_map ApiKey.id fun _ _ => rfl]
      exact h.ids
    · rw [KeyTable.step, revoke_map ApiKey.keyHash fun _ _ => rfl]
      exact h.keyHashes

/-- So does every history. -/
theorem Unique.after (h : table.Unique) (history : List KeyEvent) :
    (table.after lower history).Unique := by
  induction history generalizing table with
  | nil => exact h
  | cons event history ih => exact ih (h.step event)

theorem unique_nil : Unique [] := ⟨List.nodup_nil, List.nodup_nil⟩

/-- A row is the one with its id. -/
theorem Unique.eq_of_id (h : table.Unique) {row row' : ApiKey} (hrow : row ∈ table)
    (hrow' : row' ∈ table) (hid : row.id = row'.id) : row = row' :=
  List.inj_on_of_nodup_map h.ids hrow hrow' hid

/-- A row is the one with its digest. -/
theorem Unique.eq_of_keyHash (h : table.Unique) {row row' : ApiKey} (hrow : row ∈ table)
    (hrow' : row' ∈ table) (hhash : row.keyHash = row'.keyHash) : row = row' :=
  List.inj_on_of_nodup_map h.keyHashes hrow hrow' hhash

variable (lower)

/-- What becomes of a row in an event: it stays, and is revoked if it was or now is. -/
theorem step_row {row : ApiKey} (hrow : row ∈ table) (event : KeyEvent) :
    ∃ row' ∈ table.step lower event, row'.id = row.id ∧ row'.name = row.name ∧
      row'.keyHash = row.keyHash ∧
      (row'.revokedAt = none ↔ row.revokedAt = none ∧ ∀ now, event ≠ .revoke row.id now) := by
  cases event with
  | add record =>
    refine ⟨row, ?_, rfl, rfl, rfl, ⟨fun h => ⟨h, nofun⟩, And.left⟩⟩
    rcases step_add record with hsame | hadd
    · rw [hsame]
      exact hrow
    · rw [(add_eq_ok hadd).1]
      exact List.mem_append_left _ hrow
  | revoke id now =>
    refine ⟨_, List.mem_map_of_mem hrow, ?_⟩
    by_cases hid : row.id = id
    · rw [if_pos hid]
      refine ⟨rfl, rfl, rfl, iff_of_false nofun ?_⟩
      rintro ⟨-, hnot⟩
      exact hnot now (by rw [hid])
    · rw [if_neg hid]
      refine ⟨rfl, rfl, rfl, ⟨fun h => ⟨h, ?_⟩, And.left⟩⟩
      rintro now' ⟨⟩
      exact hid rfl

/-- What becomes of a row in a history. -/
theorem after_row {row : ApiKey} (hrow : row ∈ table) (history : List KeyEvent) :
    ∃ row' ∈ table.after lower history, row'.id = row.id ∧ row'.name = row.name ∧
      row'.keyHash = row.keyHash ∧
      (row'.revokedAt = none ↔
        row.revokedAt = none ∧ ∀ now, .revoke row.id now ∉ history) := by
  induction history generalizing table row with
  | nil => exact ⟨row, hrow, rfl, rfl, rfl, by simp⟩
  | cons event history ih =>
    obtain ⟨row₁, hrow₁, hid₁, hname₁, hhash₁, hrevoked₁⟩ := step_row lower hrow event
    obtain ⟨row₂, hrow₂, hid₂, hname₂, hhash₂, hrevoked₂⟩ := ih hrow₁
    refine ⟨row₂, hrow₂, hid₂.trans hid₁, hname₂.trans hname₁, hhash₂.trans hhash₁, ?_⟩
    rw [hrevoked₂, hrevoked₁, hid₁, and_assoc, ← forall_and]
    simp only [List.mem_cons, not_or, ne_comm]

/-- **What a lookup finds**, where digests are unique: the row with the digest, unless it is
revoked. -/
theorem findByHash_cases (h : table.Unique) (keyHash : String) :
    (∃ row ∈ table, row.keyHash = lower keyHash ∧ row.revokedAt = none ∧
      table.findByHash lower keyHash = .ok (some ⟨row.id, row.name⟩)) ∨
    ((∀ row ∈ table, row.keyHash = lower keyHash → row.revokedAt ≠ none) ∧
      table.findByHash lower keyHash = .ok none) := by
  have hmem : ∀ row, row ∈ (table.filter fun row =>
      row.keyHash == lower keyHash && row.revokedAt.isNone) ↔
      row ∈ table ∧ row.keyHash = lower keyHash ∧ row.revokedAt = none := by
    simp [List.mem_filter]
  rw [findByHash]
  have hnodup : ((table.filter fun row =>
      row.keyHash == lower keyHash && row.revokedAt.isNone).map ApiKey.keyHash).Nodup :=
    h.keyHashes.sublist (List.filter_sublist.map _)
  generalize (table.filter fun row =>
    row.keyHash == lower keyHash && row.revokedAt.isNone) = found at hmem hnodup
  rcases found with _ | ⟨row, _ | ⟨row', rest⟩⟩
  · refine .inr ⟨fun row hrow hhash hlive => ?_, rfl⟩
    exact absurd ((hmem row).mpr ⟨hrow, hhash, hlive⟩) List.not_mem_nil
  · obtain ⟨hrow, hhash, hlive⟩ := (hmem row).mp List.mem_cons_self
    exact .inl ⟨row, hrow, hhash, hlive, rfl⟩
  · -- two rows with one digest
    have hhash := ((hmem row).mp List.mem_cons_self).2.1
    have hhash' := ((hmem row').mp (List.mem_cons_of_mem _ List.mem_cons_self)).2.1
    simp [hhash, hhash'] at hnodup

/-- The repository reads this table. -/
def Reads (lower : String → String) (table : KeyTable) : Event Service → Prop
  | ⟨.findByHash keyHash, reply⟩ => reply = table.findByHash lower keyHash
  | _ => True

end KeyTable

/-! ## Who is let in -/

section

variable {env : Environment} {settings : Settings} {lower : String → String} {table : KeyTable}
  {rawKey : Option String} {result : Except Exc Caller} {keys : Set String}

/-- `authenticate(raw_key)` ends so, where the table is this. -/
def Authenticates (env : Environment) (settings : Settings) (lower : String → String)
    (table : KeyTable) (rawKey : Option String) (result : Except Exc Caller) : Prop :=
  ∃ trace, Prog.Steps (authenticate env settings rawKey).run trace (.ret result) ∧
    ∀ ev ∈ trace, table.Reads lower ev

/-- `InvalidCredentials()`. -/
def invalidCredentials : Exc := .app (.new .invalidCredentials)

/-- How it should end. -/
inductive Resolves (env : Environment) (settings : Settings) (table : KeyTable) :
    Option String → Except Exc Caller → Prop where
  /-- nothing is presented and nothing is required -/
  | anonymous {rawKey : Option String} : rawKey.filter (· ≠ "") = none →
      settings.requireApiKey = false → Resolves env settings table rawKey (.ok anonymous)
  /-- nothing is presented -/
  | missing {rawKey : Option String} : rawKey.filter (· ≠ "") = none →
      settings.requireApiKey = true →
      Resolves env settings table rawKey (.error (.app (.new .missingCredentials)))
  /-- a live row has the digest of what is presented -/
  | live {key : String} {row : ApiKey} : key ≠ "" → row ∈ table → row.revokedAt = none →
      row.keyHash = env.hashApiKey key →
      Resolves env settings table (some key) (.ok ⟨row.id, row.name⟩)
  /-- no live row does, for whatever reason -/
  | invalid {key : String} : key ≠ "" →
      (∀ row ∈ table, row.revokedAt = none → row.keyHash ≠ env.hashApiKey key) →
      Resolves env settings table (some key) (.error invalidCredentials)

/-- What `authenticate` makes of a lookup. -/
def lookedUp : Except String (Option Caller) → Except Exc Caller
  | .ok (some caller) => .ok caller
  | .ok none => .error invalidCredentials
  | .error name => .error (.foreign name)

theorem authenticates_none (h : rawKey.filter (· ≠ "") = none) :
    Authenticates env settings lower table rawKey result ↔ result =
      if settings.requireApiKey then .error (.app (.new .missingCredentials))
      else .ok anonymous := by
  have hrun : (authenticate env settings rawKey).run =
      .ret (if settings.requireApiKey then .error (.app (.new .missingCredentials))
        else .ok anonymous) := by
    rw [authenticate, h]
    by_cases hrequired : settings.requireApiKey = true
    · simp only [if_pos hrequired]
      rfl
    · simp only [if_neg hrequired]
      rfl
  rw [Authenticates]
  rw [hrun]
  refine ⟨?_, ?_⟩
  · rintro ⟨trace, hsteps, -⟩
    cases hsteps
    rfl
  · rintro rfl
    exact ⟨[], .refl _, by simp⟩

theorem authenticates_some {key : String} (h : key ≠ "") :
    Authenticates env settings lower table (some key) result ↔
      result = lookedUp (table.findByHash lower (env.hashApiKey key)) := by
  have hkey : (some key).filter (· ≠ "") = some key := by
    rw [Option.filter_some, if_pos (by simpa using h)]
  have hrun : (authenticate env settings (some key)).run =
      .op (.findByHash (env.hashApiKey key)) fun reply => .ret (lookedUp reply) := by
    rw [authenticate, hkey]
    refine congrArg (Prog.op _) (funext fun reply => ?_)
    rcases reply with name | (_ | caller) <;> rfl
  rw [Authenticates]
  rw [hrun]
  refine ⟨?_, ?_⟩
  · rintro ⟨trace, hsteps, hreads⟩
    cases hsteps with
    | cons hrest =>
      cases hrest
      have hreply := hreads _ List.mem_cons_self
      exact congrArg lookedUp hreply
  · rintro rfl
    refine ⟨[⟨.findByHash (env.hashApiKey key), table.findByHash lower (env.hashApiKey key)⟩],
      .cons (.refl _), ?_⟩
    intro ev hev
    obtain rfl := List.mem_singleton.mp hev
    rfl

/-- An authentication ends in one way. -/
theorem authenticates_unique (env : Environment) (settings : Settings) (lower : String → String)
    (table : KeyTable) (rawKey : Option String) :
    ∃! result, Authenticates env settings lower table rawKey result := by
  by_cases h : rawKey.filter (· ≠ "") = none
  · simp only [authenticates_none h]
    exact existsUnique_eq
  · obtain ⟨key, hkey⟩ := Option.ne_none_iff_exists'.mp h
    obtain ⟨rfl, hne⟩ := Option.filter_eq_some_iff.mp hkey
    simp only [authenticates_some (by simpa using hne : key ≠ "")]
    exact existsUnique_eq

/-- **Where digests are unique, keys resolve** as they should. -/
theorem authenticates_iff_resolves (hlower : LowersAscii lower)
    (hdigests : Digests env.hashApiKey keys) (hunique : table.Unique) :
    Authenticates env settings lower table rawKey result ↔
      Resolves env settings table rawKey result := by
  by_cases h : rawKey.filter (· ≠ "") = none
  · rw [authenticates_none h]
    refine ⟨?_, ?_⟩
    · rintro rfl
      split
      · next hrequired => exact .missing h hrequired
      · next hopen => exact .anonymous h (Bool.eq_false_of_not_eq_true hopen)
    · rintro (⟨-, hopen⟩ | ⟨-, hrequired⟩ | ⟨hne, -⟩ | ⟨hne, -⟩)
      · rw [hopen, if_neg Bool.false_ne_true]
      · rw [if_pos hrequired]
      · simp [hne] at h
      · simp [hne] at h
  · obtain ⟨key, hkey⟩ := Option.ne_none_iff_exists'.mp h
    obtain ⟨rfl, hne⟩ := Option.filter_eq_some_iff.mp hkey
    have hne' : key ≠ "" := by simpa using hne
    have hfold := hdigests.lower hlower key
    rw [authenticates_some hne']
    rcases KeyTable.findByHash_cases lower hunique (env.hashApiKey key) with
      ⟨row, hrow, hhash, hlive, hfound⟩ | ⟨hnone, hfound⟩
    · rw [hfound]
      rw [hfold] at hhash
      refine ⟨?_, ?_⟩
      · rintro rfl
        exact .live hne' hrow hlive hhash
      · rintro (⟨hnone, -⟩ | ⟨hnone, -⟩ | ⟨-, hrow', -, hhash'⟩ | ⟨-, hnot⟩)
        · exact absurd hnone h
        · exact absurd hnone h
        · rw [hunique.eq_of_keyHash hrow' hrow (hhash'.trans hhash.symm)]
          rfl
        · exact absurd hhash (hnot row hrow hlive)
    · rw [hfound]
      rw [hfold] at hnone
      refine ⟨?_, ?_⟩
      · rintro rfl
        exact .invalid hne' fun row hrow hlive hhash => hnone row hrow hhash hlive
      · rintro (⟨hnone', -⟩ | ⟨hnone', -⟩ | ⟨-, hrow, hlive, hhash⟩ | ⟨-, -⟩)
        · exact absurd hnone' h
        · exact absurd hnone' h
        · exact absurd hlive (hnone _ hrow hhash)
        · rfl

theorem Authenticates.eq_iff {result' : Except Exc Caller}
    (h : Authenticates env settings lower table rawKey result') :
    Authenticates env settings lower table rawKey result ↔ result = result' := by
  refine ⟨?_, ?_⟩
  · exact fun hresult =>
      (authenticates_unique env settings lower table rawKey).unique hresult h
  · rintro rfl
    exact h

/-! ## Stored keys -/

/-- What a key is good for whose record is stored after `earlier`: for nothing before; for its own
record from then on, whatever else is added or revoked, until that is revoked; and no other key
is good for its record. -/
structure GoodFor (env : Environment) (settings : Settings) (lower : String → String)
    (keys : Set String) (earlier : List KeyEvent) (stored : String × ApiKeyRecord) : Prop where
  before : ∀ past, past <+: earlier → ∀ result,
    Authenticates env settings lower (.after lower [] past) (some stored.1) result ↔
      result = .error invalidCredentials
  live : ∀ since, (∀ now, .revoke stored.2.id now ∉ since) → ∀ result,
    Authenticates env settings lower (.after lower [] (earlier ++ .add stored.2 :: since))
      (some stored.1) result ↔ result = .ok ⟨stored.2.id, stored.2.name⟩
  revoked : ∀ since now, .revoke stored.2.id now ∈ since → ∀ result,
    Authenticates env settings lower (.after lower [] (earlier ++ .add stored.2 :: since))
      (some stored.1) result ↔ result = .error invalidCredentials
  alone : ∀ since other caller, stored.1 ∈ keys → other ∈ keys → other ≠ "" → other ≠ stored.1 →
    Authenticates env settings lower (.after lower [] (earlier ++ .add stored.2 :: since))
      (some other) (.ok caller) → caller.id ≠ stored.2.id

/-- The row a record is stored in, after whatever happens next. -/
theorem stored_row {earlier : List KeyEvent} {record : ApiKeyRecord}
    (hadd : KeyTable.add lower (.after lower [] earlier) record = .ok table)
    (since : List KeyEvent) :
    ∃ row ∈ KeyTable.after lower [] (earlier ++ .add record :: since),
      row.id = record.id ∧ row.name = record.name ∧ row.keyHash = lower record.keyHash ∧
      (row.revokedAt = none ↔ ∀ now, .revoke record.id now ∉ since) := by
  obtain ⟨htable, -⟩ := KeyTable.add_eq_ok hadd
  have hstored : (⟨record.id, record.name, lower record.keyHash, none⟩ : ApiKey) ∈ table := by
    rw [htable]
    exact List.mem_append_right _ List.mem_cons_self
  have hafter : KeyTable.after lower [] (earlier ++ .add record :: since) =
      table.after lower since := by
    rw [KeyTable.after_append]
    refine congrArg (KeyTable.after lower · since) ?_
    rw [KeyTable.step, hadd]
    rfl
  obtain ⟨row, hrow, hid, hname, hhash, hrevoked⟩ :=
    KeyTable.after_row lower hstored since
  rw [hafter]
  exact ⟨row, hrow, hid, hname, hhash, hrevoked.trans (and_iff_right rfl)⟩

/-- **A key is good for the record with its digest**, in whatever letter case that is. -/
theorem goodFor_of_add (hlower : LowersAscii lower) (digests : Digests env.hashApiKey keys)
    {earlier : List KeyEvent} {record : ApiKeyRecord} {key : String} (hne : key ≠ "")
    (hkey : record.keyHash.toLower = env.hashApiKey key)
    (hadd : KeyTable.add lower (.after lower [] earlier) record = .ok table) :
    GoodFor env settings lower keys earlier (key, record) := by
  have hunique : ∀ history, (KeyTable.after lower [] history).Unique :=
    KeyTable.unique_nil.after
  have hfold : lower record.keyHash = env.hashApiKey key := by
    rw [IsHexdigest.lower_eq hlower (hkey.symm ▸ digests.hexdigest key), hkey]
  refine ⟨?_, ?_, ?_, ?_⟩
  · -- a row with the digest would still be there, and the database would have refused the record
    rintro past ⟨rest, rfl⟩ result
    refine Authenticates.eq_iff ((authenticates_iff_resolves hlower digests (hunique past)).mpr
      (.invalid hne fun row hrow _ hhash => ?_))
    obtain ⟨row', hrow', -, -, hhash', -⟩ := KeyTable.after_row lower hrow rest
    rw [← KeyTable.after_append] at hrow'
    refine ((KeyTable.add_eq_ok hadd).2 row' hrow').2 ?_
    rw [hhash', hhash, hfold]
  · intro since hlive result
    obtain ⟨row, hrow, hid, hname, hhash, hrevoked⟩ := stored_row hadd since
    rw [← hid, ← hname]
    exact Authenticates.eq_iff ((authenticates_iff_resolves hlower digests (hunique _)).mpr
      (.live hne hrow (hrevoked.mpr hlive) (hhash.trans hfold)))
  · intro since now hrevoke result
    obtain ⟨row, hrow, hid, hname, hhash, hrevoked⟩ := stored_row hadd since
    refine Authenticates.eq_iff ((authenticates_iff_resolves hlower digests (hunique _)).mpr
      (.invalid hne fun row' hrow' hlive hhash' => ?_))
    obtain rfl := (hunique _).eq_of_keyHash hrow' hrow (hhash'.trans (hhash.trans hfold).symm)
    exact hrevoked.mp hlive now hrevoke
  · intro since other caller hstored hplay hother hdiffers hauth hid
    obtain ⟨row, hrow, hrowId, -, hhash, -⟩ := stored_row hadd since
    cases (authenticates_iff_resolves hlower digests (hunique _)).mp hauth with
    | anonymous hnone => simp [hother] at hnone
    | live _ hrow' _ hhash' =>
      obtain rfl := (hunique _).eq_of_id hrow' hrow (hid.trans hrowId.symm)
      exact hdiffers (digests.injective hplay hstored (hhash'.symm.trans (hhash.trans hfold)))

theorem mintKey_ne_empty (digests : Digests env.hashApiKey keys)
    (name tokenUrlsafe tokenHex : String) :
    (mintKey digests name tokenUrlsafe tokenHex).1 ≠ "" := by
  intro h
  have hlength := congrArg String.length h
  simp [mintKey] at hlength

/-- **Exactly the live keys authenticate.** After every history of adding records, with digests in
any letter case and minted ones among them, and revoking rows, every presented value ends in one
way, as the live rows say; a key is good for every record that is stored then with its digest in any
letter case; and so is a key that is minted then for its own. -/
theorem authentication_exact (env : Environment) (settings : Settings) {lower : String → String}
    (hlower : LowersAscii lower) (keys : Set String) (digests : Digests env.hashApiKey keys)
    (history : List KeyEvent) :
    (∀ rawKey,
      (∃! result, Authenticates env settings lower (.after lower [] history) rawKey result) ∧
      ∀ result, Authenticates env settings lower (.after lower [] history) rawKey result ↔
        Resolves env settings (.after lower [] history) rawKey result) ∧
    (∀ record table, KeyTable.add lower (.after lower [] history) record = .ok table →
      ∀ key, key ≠ "" → record.keyHash.toLower = env.hashApiKey key →
        GoodFor env settings lower keys history (key, record)) ∧
    ∀ name tokenUrlsafe tokenHex table,
      KeyTable.add lower (.after lower [] history)
        (mintKey digests name tokenUrlsafe tokenHex).2 = .ok table →
      GoodFor env settings lower keys history (mintKey digests name tokenUrlsafe tokenHex) := by
  refine ⟨fun rawKey => ⟨authenticates_unique env settings lower _ rawKey, fun result => ?_⟩,
    ?_, ?_⟩
  · exact authenticates_iff_resolves hlower digests (KeyTable.unique_nil.after history)
  · exact fun record table hadd key hne hkey => goodFor_of_add hlower digests hne hkey hadd
  · intro name tokenUrlsafe tokenHex table hadd
    exact goodFor_of_add hlower digests (mintKey_ne_empty digests name tokenUrlsafe tokenHex)
      (digests.hexdigest _).toLower hadd

end

/-! ## A key -/

/-- An environment that knows the digests of two keys. -/
def twoKeys : Environment := { Environment.sample with
  hashApiKey := fun key =>
    if key = "sk-abc" then "1460db1b6902f8b1fc2a40d9381a24d0fd22c3bc1b2c6f999c521da73776fbe0"
    else if key = "sk-def" then "b9bbefcc52a880d4c538503b64e1280bf9fb871a33fe621a8f62067a93e709b0"
    else "e3b0c44298fc1c149afbf4c8996fb92427ae41e4649b934ca495991b7852b855" }

/-- These are digests. -/
theorem twoKeys_digests : Digests twoKeys.hashApiKey {"sk-abc", "sk-def"} where
  hexdigest key := by
    simp only [twoKeys]
    split
    · exact isHexdigest_of_all (by decide) (by decide)
    · split <;> exact isHexdigest_of_all (by decide) (by decide)
  injective := by
    rintro key (rfl | rfl) key' (rfl | rfl) h
    · rfl
    · exact absurd h (by decide +kernel)
    · exact absurd h (by decide +kernel)
    · rfl

/-- A record of the second key, with its digest in upper case but for the end. -/
def copiedRecord : ApiKeyRecord where
  id := "c0ffee00"
  name := "Some client"
  keyHash := "B9BBEFCC52A880D4C538503B64E1280BF9FB871A33FE621A8F62067A93E709b0"
  length := by decide

/-- The second key is good for its record, and the first for the one it is minted with after
that. -/
theorem authentication_exact_folded :
    GoodFor twoKeys .defaults String.toLower {"sk-abc", "sk-def"} [] ("sk-def", copiedRecord) ∧
    GoodFor twoKeys .defaults String.toLower {"sk-abc", "sk-def"} [.add copiedRecord]
      (mintKey twoKeys_digests "Client" "abc" "0badf00d") := by
  have hlower : LowersAscii String.toLower := fun _ _ => rfl
  have hfold : copiedRecord.keyHash.toLower = twoKeys.hashApiKey "sk-def" := by decide +kernel
  let stored : KeyTable :=
    [⟨copiedRecord.id, copiedRecord.name, copiedRecord.keyHash.toLower, none⟩]
  have hfirst : KeyTable.add String.toLower [] copiedRecord = .ok stored :=
    KeyTable.add_of_fresh (by decide) (by decide) (by decide +kernel) (by simp)
  have hafter : KeyTable.after String.toLower [] [.add copiedRecord] = stored := by
    simp [KeyTable.after, KeyTable.step, hfirst, Except.toOption]
  have hfresh : ∀ row ∈ stored, row.id ≠ "0badf00d" ∧ row.keyHash ≠
      (mintKey twoKeys_digests "Client" "abc" "0badf00d").2.keyHash.toLower := by
    intro row hrow
    obtain rfl := List.mem_singleton.mp hrow
    rw [hfold]
    exact ⟨by decide, by decide +kernel⟩
  have hsecond : stored.add String.toLower (mintKey twoKeys_digests "Client" "abc" "0badf00d").2 =
      .ok _ :=
    KeyTable.add_of_fresh (by decide) (by decide) (by decide +kernel) hfresh
  rw [← hafter] at hsecond
  exact ⟨(authentication_exact twoKeys .defaults hlower _ twoKeys_digests []).2.1
      copiedRecord _ hfirst "sk-def" (by decide) hfold,
    (authentication_exact twoKeys .defaults hlower _ twoKeys_digests [.add copiedRecord]).2.2
      "Client" "abc" "0badf00d" _ hsecond⟩

end PrdApiWrapper
