import VpnBot.XrayConfig.Outside

/-!
# The clients of the inbound stay apart

What each method does to the ids and the emails of the clients.  A removal and the short ids cannot bring two
of them together; `add_client` looks for the id, unless it is empty, and for the email; `rename_clients` does not
look at the clients that it leaves, so a label that one of these has is there twice afterwards
(`distinct_rename_iff`).
-/

namespace VpnBot.XrayConfig

open Py Sys

variable {adapter : Adapter} {config config' inbound client : Json} {op : Op} {call : ConfigCall}
  {clients : List Json} {renames : List (Text × Text)} {uuid email : Text}

/-! ### Ids and emails -/

/-- The value of a key of a client. -/
def clientField (k : Text) (client : Json) : Option Json :=
  if client.isObj then client.field? k else none

/-- The ids are pairwise distinct, and so are the emails. -/
structure Distinct (clients : List Json) : Prop where
  ids : (clients.filterMap (clientField "id".toList)).Nodup
  emails : (clients.filterMap (clientField "email".toList)).Nodup

def hasId (uuid : Text) (client : Json) : Bool := client.isObj && (client.field "id".toList).isStr uuid

theorem isStr_iff {v : Json} {t : Text} : v.isStr t = true ↔ v = .str t := by
  cases v <;> simp [Json.isStr]

theorem isStr_field_iff {k t : Text} :
    (client.isObj && (client.field k).isStr t) = true ↔ clientField k client = some (.str t) := by
  rw [Bool.and_eq_true_iff, isStr_iff, clientField, Json.field]
  constructor
  · rintro ⟨hobj, hfield⟩
    rw [if_pos hobj]
    cases hk : client.field? k with
    | none =>
      rw [hk] at hfield
      cases hfield
    | some v =>
      rw [hk] at hfield
      exact congrArg some hfield
  · intro h
    split at h
    · rename_i hobj
      rw [h]
      exact ⟨hobj, rfl⟩
    · cases h

theorem hasId_iff : hasId uuid client = true ↔ clientField "id".toList client = some (.str uuid) :=
  isStr_field_iff

theorem nodup_filterMap_iff {α β : Type} {f : α → Option β} {l : List α} :
    (l.filterMap f).Nodup ↔ l.Pairwise fun a b => ∀ v, f a = some v → f b ≠ some v := by
  rw [List.Nodup, List.pairwise_filterMap]
  refine iff_of_eq (congrArg (List.Pairwise · l) ?_)
  funext a b
  refine propext ⟨fun h v ha hb => h v ha v hb rfl, ?_⟩
  rintro h v ha _ hb rfl
  exact h v ha hb

/-! ### Adding and removing -/

theorem absent_of_not_any (h : clients.any (isClient uuid email) = false) (hclient : client ∈ clients) :
    (uuid ≠ [] → hasId uuid client = false) ∧
      (email ≠ [] → clientField "email".toList client ≠ some (.str email)) := by
  have hnot := List.any_eq_false.1 h client hclient
  rw [isClient, Bool.and_eq_true_iff, Bool.or_eq_true_iff, Bool.and_eq_true_iff, Bool.and_eq_true_iff] at hnot
  constructor
  · intro hne
    rw [Bool.eq_false_iff]
    intro hid
    obtain ⟨hobj, hstr⟩ := Bool.and_eq_true_iff.1 hid
    exact hnot ⟨hobj, Or.inl ⟨by simpa using hne, hstr⟩⟩
  · intro hne hemail
    obtain ⟨hobj, hstr⟩ := Bool.and_eq_true_iff.1 (isStr_field_iff.2 hemail)
    exact hnot ⟨hobj, Or.inr ⟨by simpa using hne, hstr⟩⟩

theorem nodup_concat_iff {α : Type} {l : List α} {a : α} : (l ++ [a]).Nodup ↔ l.Nodup ∧ a ∉ l := by
  rw [List.nodup_append]
  constructor
  · rintro ⟨h, _, hdisjoint⟩
    exact ⟨h, fun hmem => hdisjoint a hmem a List.mem_cons_self rfl⟩
  · rintro ⟨h, hmem⟩
    refine ⟨h, List.nodup_singleton a, ?_⟩
    rintro b hb c hc rfl
    rw [List.mem_singleton.1 hc] at hb
    exact hmem hb

theorem distinct_add_iff {shortId flow : Text} {manageShortId : Bool} (h : Distinct clients)
    (hemail : email ≠ []) (hany : clients.any (isClient uuid email) = false) :
    Distinct ((Op.addClient uuid email shortId flow manageShortId).clientsAfter clients) ↔
      (uuid = [] → ∀ client ∈ clients, hasId [] client = false) := by
  unfold Op.clientsAfter
  dsimp only
  generalize hobject : Json.obj (if flow.isEmpty then
    [("id".toList, Json.str uuid), ("email".toList, .str email)]
    else [("id".toList, Json.str uuid), ("email".toList, .str email)] ++ [("flow".toList, .str flow)]) = new
  have hnewId : clientField "id".toList new = some (.str uuid) := by
    rw [← hobject]
    split <;> rfl
  have hnewEmail : clientField "email".toList new = some (.str email) := by
    rw [← hobject]
    split <;> rfl
  have hids : ((clients ++ [new]).filterMap (clientField "id".toList)).Nodup ↔
      ∀ client ∈ clients, hasId uuid client = false := by
    rw [List.filterMap_append, List.filterMap_cons_some hnewId, List.filterMap_nil, nodup_concat_iff,
      and_iff_right h.ids, List.mem_filterMap]
    simp only [← hasId_iff, not_exists, not_and, Bool.not_eq_true]
  have hemails : ((clients ++ [new]).filterMap (clientField "email".toList)).Nodup := by
    rw [List.filterMap_append, List.filterMap_cons_some hnewEmail, List.filterMap_nil, nodup_concat_iff,
      List.mem_filterMap]
    refine ⟨h.emails, ?_⟩
    rintro ⟨client, hclient, hfield⟩
    exact (absent_of_not_any hany hclient).2 hemail hfield
  constructor
  · rintro hdistinct rfl
    exact hids.1 hdistinct.ids
  · refine fun hempty => ⟨hids.2 fun client hclient => ?_, hemails⟩
    by_cases huuid : uuid = []
    · subst huuid
      exact hempty rfl client hclient
    · exact (absent_of_not_any hany hclient).1 huuid

/-- A removal keeps them apart. -/
theorem distinct_filter (h : Distinct clients) (p : Json → Bool) : Distinct (clients.filter p) :=
  ⟨h.ids.sublist (List.filter_sublist.filterMap _), h.emails.sublist (List.filter_sublist.filterMap _)⟩

/-! ### Renaming -/

/-- The label that the map has for a client. -/
def desiredLabel (renames : List (Text × Text)) (client : Json) : Option Text :=
  match client, client.field "id".toList with
  | .obj _, .str uuid => (renames.lookup uuid).filter fun desired => !desired.isEmpty
  | _, _ => none

/-- No client that the map leaves has a label that another one gets. -/
def LabelsFree (renames : List (Text × Text)) (clients : List Json) : Prop :=
  ∀ client ∈ clients, desiredLabel renames client = none → ∀ other ∈ clients, ∀ label,
    desiredLabel renames other = some label → clientField "email".toList client ≠ some (.str label)

theorem renameClient_eq (renames : List (Text × Text)) (client : Json) :
    renameClient renames client = match desiredLabel renames client with
      | some desired => if (client.field "email".toList).isStr desired then (client, false)
        else (client.set "email".toList (.str desired), true)
      | none => (client, false) := by
  cases client with
  | obj fs =>
    cases hid : (Json.obj fs).field "id".toList with
    | str uuid =>
      cases hdesired : (renames.lookup uuid).filter fun desired => !desired.isEmpty with
      | none => simp only [renameClient, desiredLabel, hid, hdesired]
      | some desired => simp only [renameClient, desiredLabel, hid, hdesired]
    | _ => simp only [renameClient, desiredLabel, hid]
  | _ => rfl

theorem isObj_of_desiredLabel {label : Text} (h : desiredLabel renames client = some label) :
    client.isObj = true ∧ ∃ uuid, clientField "id".toList client = some (.str uuid) ∧
      renames.lookup uuid = some label := by
  cases client with
  | obj fs =>
    cases hid : (Json.obj fs).field "id".toList with
    | str uuid =>
      simp only [desiredLabel, hid] at h
      exact ⟨rfl, uuid, hasId_iff.1 (by rw [hasId, hid]; simp [Json.isObj, Json.isStr]),
        (Option.filter_eq_some_iff.1 h).1⟩
    | _ =>
      simp only [desiredLabel, hid] at h
      cases h
  | _ => cases h

theorem id_renameClient (renames : List (Text × Text)) (client : Json) :
    clientField "id".toList (renameClient renames client).1 = clientField "id".toList client := by
  rw [renameClient_eq]
  cases hlabel : desiredLabel renames client with
  | none => rfl
  | some label =>
    have hobj := (isObj_of_desiredLabel hlabel).1
    dsimp only
    split
    · rfl
    · rw [clientField, clientField, Json.isObj_set, if_pos hobj, if_pos hobj, Json.field?_set hobj,
        if_neg (by decide)]

theorem email_renameClient (renames : List (Text × Text)) (client : Json) :
    clientField "email".toList (renameClient renames client).1 =
      ((desiredLabel renames client).map Json.str).or (clientField "email".toList client) := by
  rw [renameClient_eq]
  cases hlabel : desiredLabel renames client with
  | none => rfl
  | some label =>
    have hobj := (isObj_of_desiredLabel hlabel).1
    dsimp only
    split
    · rename_i hsame
      exact isStr_field_iff.1 (Bool.and_eq_true_iff.2 ⟨hobj, hsame⟩)
    · rw [clientField, Json.isObj_set, if_pos hobj, Json.field?_set hobj, if_pos rfl]
      rfl

theorem desiredLabel_congr {client' : Json} (hobj : client'.isObj = client.isObj)
    (hid : client'.field "id".toList = client.field "id".toList) :
    desiredLabel renames client' = desiredLabel renames client := by
  cases client with
  | obj fs =>
    cases client' with
    | obj fs' =>
      cases hfield : (Json.obj fs).field "id".toList <;>
        simp only [desiredLabel, hid, hfield]
    | _ => cases hobj
  | _ =>
    cases client' with
    | obj fs' => cases hobj
    | _ => rfl

theorem desiredLabel_renameClient (renames : List (Text × Text)) (client : Json) :
    desiredLabel renames (renameClient renames client).1 = desiredLabel renames client := by
  rw [renameClient_eq]
  cases hlabel : desiredLabel renames client with
  | none => exact hlabel
  | some label =>
    dsimp only
    split
    · exact hlabel
    · rw [← hlabel]
      exact desiredLabel_congr (Json.isObj_set ..) (Json.field_set_of_ne _ _ (by decide))

theorem renameClient_renameClient (renames : List (Text × Text)) (client : Json) :
    (renameClient renames (renameClient renames client).1).2 = false := by
  rw [renameClient_eq, desiredLabel_renameClient]
  cases hlabel : desiredLabel renames client with
  | none => rfl
  | some label =>
    have hemail := email_renameClient renames client
    rw [hlabel] at hemail
    have hsame := (Bool.and_eq_true_iff.1 (isStr_field_iff.2 hemail)).2
    dsimp only
    rw [if_pos hsame]

/-- **The same map renames nothing the second time.** -/
theorem renameClients_again (preferRestart : Bool)
    (h : clientsOf inbound = some (clients.map fun client => (renameClient renames client).1)) :
    renameClients renames preferRestart inbound = some none := by
  have hany : ((clients.map fun client => (renameClient renames client).1).map (renameClient renames)).any
      Prod.snd = false := by
    rw [List.any_map, List.any_map, List.any_eq_false]
    intro client _
    simp [renameClient_renameClient]
  simp only [renameClients, h, Option.bind_eq_bind, Option.bind_some, hany]
  rfl

theorem mem_of_lookup {label : Text} (h : renames.lookup uuid = some label) : (uuid, label) ∈ renames := by
  induction renames with
  | nil => cases h
  | cons p renames ih =>
    obtain ⟨key, value⟩ := p
    rw [List.lookup_cons] at h
    split at h
    · rename_i hkey
      cases h
      rw [eq_of_beq hkey]
      exact List.mem_cons_self
    · exact List.mem_cons_of_mem _ (ih h)

theorem eq_of_lookup {label uuid' : Text} (hlabels : (renames.map Prod.snd).Nodup)
    (h : renames.lookup uuid = some label) (h' : renames.lookup uuid' = some label) : uuid = uuid' :=
  congrArg Prod.fst (List.inj_on_of_nodup_map hlabels (mem_of_lookup h) (mem_of_lookup h') rfl)

/-- Neither of two clients is left with a label that the other one gets. -/
def NoClash (renames : List (Text × Text)) (a b : Json) : Prop :=
  (desiredLabel renames a = none → ∀ label, desiredLabel renames b = some label →
    clientField "email".toList a ≠ some (.str label)) ∧
  (desiredLabel renames b = none → ∀ label, desiredLabel renames a = some label →
    clientField "email".toList b ≠ some (.str label))

theorem labelsFree_iff : LabelsFree renames clients ↔ clients.Pairwise (NoClash renames) := by
  constructor
  · intro h
    exact List.pairwise_of_forall_mem_list fun a ha b hb => ⟨fun hnone => h a ha hnone b hb,
      fun hnone => h b hb hnone a ha⟩
  · intro h client hclient hnone other hother
    have hsymm : Std.Symm (NoClash renames) := ⟨fun a b h => ⟨h.2, h.1⟩⟩
    have hself : ∀ a ∈ clients, NoClash renames a a := by
      refine fun a _ => ⟨fun hnone label hlabel => ?_, fun hnone label hlabel => ?_⟩ <;>
        exact nomatch hnone.symm.trans hlabel
    exact (List.Pairwise.forall_of_forall hself h hclient hother).1 hnone

theorem emails_ne_iff (hlabels : (renames.map Prod.snd).Nodup) {a b : Json}
    (hids : ∀ v, clientField "id".toList a = some v → clientField "id".toList b ≠ some v)
    (hemails : ∀ v, clientField "email".toList a = some v → clientField "email".toList b ≠ some v) :
    (∀ v, clientField "email".toList (renameClient renames a).1 = some v →
      clientField "email".toList (renameClient renames b).1 ≠ some v) ↔ NoClash renames a b := by
  rw [email_renameClient, email_renameClient, NoClash]
  cases ha : desiredLabel renames a with
  | none =>
    cases hb : desiredLabel renames b with
    | none => exact iff_of_true hemails ⟨nofun, nofun⟩
    | some label =>
      constructor
      · refine fun h => ⟨fun _ label' hlabel' hemail => ?_, nofun⟩
        cases hlabel'
        exact h _ hemail rfl
      · rintro ⟨h, -⟩ v hv hlabel
        exact h rfl label rfl (hv.trans hlabel.symm)
  | some label =>
    cases hb : desiredLabel renames b with
    | none =>
      constructor
      · refine fun h => ⟨nofun, fun _ label' hlabel' hemail => ?_⟩
        cases hlabel'
        exact h _ rfl hemail
      · rintro ⟨-, h⟩ v hv hlabel
        exact h rfl label rfl (hlabel.trans hv.symm)
    | some label' =>
      have hne : label ≠ label' := by
        rintro rfl
        obtain ⟨_, uuid, hid, hlookup⟩ := isObj_of_desiredLabel ha
        obtain ⟨_, uuid', hid', hlookup'⟩ := isObj_of_desiredLabel hb
        cases eq_of_lookup hlabels hlookup hlookup'
        exact hids _ hid hid'
      refine iff_of_true (fun v hv hlabel => hne ?_) ⟨nofun, nofun⟩
      exact Json.str.inj (Option.some.inj (hv.trans hlabel.symm))

/-- **After a renaming the clients are apart exactly when no client that the map leaves has one of its
labels.** -/
theorem distinct_rename_iff (h : Distinct clients) (hlabels : (renames.map Prod.snd).Nodup) :
    Distinct (clients.map fun client => (renameClient renames client).1) ↔ LabelsFree renames clients := by
  have hids : (clients.map fun client => (renameClient renames client).1).filterMap
      (clientField "id".toList) = clients.filterMap (clientField "id".toList) := by
    rw [List.filterMap_map]
    exact List.filterMap_congr fun client _ => id_renameClient renames client
  have hemails : ((clients.map fun client => (renameClient renames client).1).filterMap
      (clientField "email".toList)).Nodup ↔ clients.Pairwise (NoClash renames) := by
    rw [List.filterMap_map, nodup_filterMap_iff]
    have hold := (nodup_filterMap_iff.1 h.ids).and (nodup_filterMap_iff.1 h.emails)
    constructor
    · intro hnew
      exact (hold.and hnew).imp fun ⟨⟨hid, hemail⟩, hnew⟩ => (emails_ne_iff hlabels hid hemail).1 hnew
    · intro hclash
      exact (hold.and hclash).imp fun ⟨⟨hid, hemail⟩, hclash⟩ => (emails_ne_iff hlabels hid hemail).2 hclash
  rw [labelsFree_iff, ← hemails]
  exact ⟨Distinct.emails, fun hnew => ⟨hids ▸ h.ids, hnew⟩⟩

/-! ### Calls -/

/-- The clients of the target are apart. -/
def DistinctClients (adapter : Adapter) (config : Json) : Prop :=
  ∀ inbound clients, adapter.findTarget config = some inbound → clientsOf inbound = some clients →
    Distinct clients

def Op.DistinctLabels : Op → Prop
  | .renameClients renames _ => (renames.map Prod.snd).Nodup
  | _ => True

/-- What is promised about a call that returns. -/
structure KeepsInvariants (adapter : Adapter) (config : Json) (call : ConfigCall) (config' : Json) : Prop where
  distinct : DistinctClients adapter config'
  outside : adapter.outside config' = adapter.outside config
  /-- A removal by an id removes the clients with the id, and no other. -/
  removes : ∀ uuid email shortId dropShortId, call.op = .removeClient (some uuid) email shortId dropShortId →
    ∃ inbound clients inbound', adapter.findTarget config = some inbound ∧
      clientsOf inbound = some clients ∧ adapter.findTarget config' = some inbound' ∧
      clientsOf inbound' = some (clients.filter fun client => !hasId uuid client)
  /-- The same renaming once more finds nothing to write. -/
  renames : ∀ renames preferRestart, call.op = .renameClients renames preferRestart → renames ≠ [] →
    ∀ preferRestart', adapter.edited (.renameClients renames preferRestart') config' = some none

/-- A call that returns keeps its promises. -/
def GoodCall (adapter : Adapter) (config : Json) (call : ConfigCall) : Prop :=
  ∀ config', configStep adapter config call = some config' → KeepsInvariants adapter config call config'

/-- The condition on a call: an empty id is not there already, and stands for no other client, and no client
that a map leaves has one of its labels. -/
def Careful (adapter : Adapter) (config : Json) (call : ConfigCall) : Prop :=
  ∀ inbound clients, adapter.findTarget config = some inbound → clientsOf inbound = some clients →
    match call.op with
    | .addClient uuid _ _ _ _ => uuid = [] → ∀ client ∈ clients, hasId [] client = false
    | .removeClient (some uuid) email _ _ =>
      uuid = [] → ∀ client ∈ clients, matchesClientForRemove (some []) email client = hasId [] client
    | .renameClients renames _ => LabelsFree renames clients
    | .removeClient none _ _ _ | .ensureShortId _ => True

theorem matchesClientForRemove_of_ne {email : Option Text} (h : uuid ≠ []) (client : Json) :
    matchesClientForRemove (some uuid) email client = hasId uuid client := by
  have hfilter : (some uuid).filter (fun u => !u.isEmpty) = some uuid := by
    rw [Option.filter_some, if_pos (by simpa using h)]
  rw [matchesClientForRemove, hfilter, hasId]

theorem clients_of_edit (h : (op.edit inbound).isSome)
    (hop : ∀ shortId, op ≠ .ensureShortId shortId) : ∃ clients, clientsOf inbound = some clients := by
  cases hclients : clientsOf inbound with
  | some clients => exact ⟨clients, rfl⟩
  | none =>
    cases op with
    | ensureShortId shortId => exact absurd rfl (hop shortId)
    | _ => simp [Op.edit, addClient, removeClient, renameClients, hclients] at h

theorem not_any_of_edit {shortId flow : Text} {manageShortId : Bool}
    (h : ((Op.addClient uuid email shortId flow manageShortId).edit inbound).isSome)
    (hclients : clientsOf inbound = some clients) : clients.any (isClient uuid email) = false := by
  by_contra hany
  rw [Bool.not_eq_false] at hany
  simp only [Op.edit, addClient, hclients, hany, Option.bind_eq_bind, Option.bind_some, if_true] at h
  exact Bool.false_ne_true h

theorem filter_eq_filter_iff {α : Type} {p q : α → Bool} {l : List α} :
    l.filter p = l.filter q ↔ ∀ a ∈ l, p a = q a := by
  refine ⟨fun h a ha => ?_, List.filter_congr⟩
  have hmem : a ∈ l.filter p ↔ a ∈ l.filter q := by rw [h]
  rw [List.mem_filter, List.mem_filter, and_iff_right ha, and_iff_right ha] at hmem
  exact Bool.eq_iff_iff.2 hmem

theorem removes_iff {email : Option Text} :
    clients.filter (fun client => !matchesClientForRemove (some uuid) email client) =
      clients.filter (fun client => !hasId uuid client) ↔
        (uuid = [] → ∀ client ∈ clients, matchesClientForRemove (some []) email client = hasId [] client) := by
  rw [filter_eq_filter_iff]
  by_cases huuid : uuid = []
  · subst huuid
    simp only [Bool.not_inj_iff, forall_const]
  · refine iff_of_true (fun client _ => ?_) (absurd · huuid)
    rw [matchesClientForRemove_of_ne huuid]

theorem distinctClients_iff (htarget : adapter.findTarget config = some inbound)
    (hclients : clientsOf inbound = some clients) : DistinctClients adapter config ↔ Distinct clients := by
  constructor
  · exact fun h => h inbound clients htarget hclients
  · intro h inbound' clients' htarget' hclients'
    cases htarget.symm.trans htarget'
    cases hclients.symm.trans hclients'
    exact h

theorem goodCall_of_atOnce (h : DistinctClients adapter config)
    (hreads : adapter.returnsAtOnce call.op = true) :
    GoodCall adapter config call ∧ Careful adapter config call := by
  obtain ⟨op, provider⟩ := call
  constructor
  · intro config' hstep
    have hsame : config' = config := by
      rw [configStep, if_pos hreads] at hstep
      exact (Option.some.inj hstep).symm
    subst hsame
    refine ⟨h, rfl, ?_, ?_⟩
    · rintro uuid email shortId dropShortId rfl
      cases hreads
    · rintro renames preferRestart rfl hne
      exact absurd (List.isEmpty_iff.1 hreads) hne
  · intro inbound clients htarget hclients
    cases op with
    | renameClients renames preferRestart =>
      obtain rfl := List.isEmpty_iff.1 hreads
      intro client _ _ other _ label hlabel
      obtain ⟨_, _, _, hlookup⟩ := isObj_of_desiredLabel hlabel
      cases hlookup
    | ensureShortId shortId => trivial
    | _ => cases hreads

/-- **A call keeps its promises exactly when it is careful.** -/
theorem goodCall_iff (h : DistinctClients adapter config) (hlabels : call.op.DistinctLabels)
    (hstep : configStep adapter config call = some config') :
    GoodCall adapter config call ↔ Careful adapter config call := by
  -- a call that returns at once writes nothing and is careful
  cases hreads : adapter.returnsAtOnce call.op with
  | true => exact iff_of_true (goodCall_of_atOnce h hreads).1 (goodCall_of_atOnce h hreads).2
  | false =>
    have hwritten := written_of_configStep hstep
    obtain ⟨hsafe, inbound, inbound', htarget, hedit, htarget', hafter⟩ := hwritten.target hreads
    have hgood : GoodCall adapter config call ↔ KeepsInvariants adapter config call config' := by
      refine ⟨fun hgood => hgood config' hstep, fun hkeeps config'' hstep'' => ?_⟩
      cases hstep.symm.trans hstep''
      exact hkeeps
    have houtside := hwritten.outside
    -- the conditions speak of the one inbound that the call finds
    have hcareful : ∀ clients, clientsOf inbound = some clients → ∀ p : List Json → Prop,
        (∀ inbound' clients', adapter.findTarget config = some inbound' →
          clientsOf inbound' = some clients' → p clients') ↔ p clients := by
      intro clients hclients p
      refine ⟨fun hp => hp inbound clients htarget hclients, fun hp inbound' clients' ht hc => ?_⟩
      cases htarget.symm.trans ht
      cases hclients.symm.trans hc
      exact hp
    rw [hgood]
    obtain ⟨op, provider⟩ := call
    cases op with
    | ensureShortId shortId =>
      refine iff_of_true ⟨?_, houtside, fun _ _ _ _ h => (by cases h), fun _ _ h => (by cases h)⟩
        fun _ _ _ _ => trivial
      intro inbound'' clients ht hc
      cases htarget'.symm.trans ht
      rw [hafter] at hc
      obtain ⟨clients', hclients', rfl⟩ := Option.map_eq_some_iff.1 hc
      exact h inbound clients' htarget hclients'
    | addClient uuid email shortId flow manageShortId =>
      obtain ⟨clients, hclients⟩ := clients_of_edit hedit fun _ h => (by cases h)
      rw [hclients] at hafter
      have hemail : email ≠ [] := by
        rintro rfl
        exact Bool.false_ne_true hsafe
      have hdistinct := (distinctClients_iff htarget' hafter).trans
        (distinct_add_iff (h inbound clients htarget hclients) hemail (not_any_of_edit hedit hclients))
      rw [Careful, hcareful clients hclients fun clients =>
        uuid = [] → ∀ client ∈ clients, hasId [] client = false, ← hdistinct]
      exact ⟨KeepsInvariants.distinct, fun hd =>
        ⟨hd, houtside, fun _ _ _ _ h => (by cases h), fun _ _ h => (by cases h)⟩⟩
    | renameClients renames preferRestart =>
      obtain ⟨clients, hclients⟩ := clients_of_edit hedit fun _ h => (by cases h)
      rw [hclients] at hafter
      have hdistinct := (distinctClients_iff htarget' hafter).trans
        (distinct_rename_iff (h inbound clients htarget hclients) hlabels)
      rw [Careful, hcareful clients hclients fun clients => LabelsFree renames clients, ← hdistinct]
      refine ⟨KeepsInvariants.distinct, fun hd => ⟨hd, houtside, fun _ _ _ _ h => (by cases h), ?_⟩⟩
      rintro _ _ ⟨⟩ _ preferRestart'
      -- the same renames a second time change nothing, so nothing is written
      have hagain := renameClients_again preferRestart' hafter
      simp [Adapter.edited, htarget', Op.edit, hagain]
    | removeClient uuid email shortId dropShortId =>
      obtain ⟨clients, hclients⟩ := clients_of_edit hedit fun _ h => (by cases h)
      rw [hclients] at hafter
      have hdistinct : DistinctClients adapter config' := (distinctClients_iff htarget' hafter).2
        (distinct_filter (h inbound clients htarget hclients) _)
      cases uuid with
      | none =>
        exact iff_of_true ⟨hdistinct, houtside, fun _ _ _ _ h => (by cases h), fun _ _ h => (by cases h)⟩
          fun _ _ _ _ => trivial
      | some uuid =>
        rw [Careful, hcareful clients hclients fun clients => uuid = [] → ∀ client ∈ clients,
          matchesClientForRemove (some []) email client = hasId [] client, ← removes_iff]
        constructor
        · intro hkeeps
          obtain ⟨inbound₁, clients₁, inbound₂, h₁, h₂, h₃, h₄⟩ := hkeeps.removes _ _ _ _ rfl
          cases htarget.symm.trans h₁
          cases hclients.symm.trans h₂
          cases htarget'.symm.trans h₃
          exact Option.some.inj (hafter.symm.trans h₄)
        · intro hremoves
          refine ⟨hdistinct, houtside, ?_, fun _ _ h => (by cases h)⟩
          rintro _ _ _ _ ⟨⟩
          exact ⟨inbound, clients, inbound', htarget, hclients, htarget', hafter.trans (congrArg some hremoves)⟩

/-- **The invariants of the Xray config**, over every run of calls that return. -/
theorem config_invariants_iff {calls : List ConfigCall} (hdistinct : DistinctClients adapter config)
    (hlabels : ∀ call ∈ calls, call.op.DistinctLabels)
    (hrun : runFrom (configStep adapter) config calls = some config') :
    Allowed (configStep adapter) (GoodCall adapter) config calls ↔
      Allowed (configStep adapter) (Careful adapter) config calls :=
  allowed_iff_of_inv (fun _ call hcall _ h hstep => goodCall_iff h (hlabels call hcall) hstep)
    (fun _ _ _ _ hstep hgood => (hgood _ hstep).distinct) hdistinct hrun

/-! ### A label that is taken -/

/-- A client with an id and an email. -/
def clientOf (id email : String) : Json :=
  .obj [("id".toList, .str id.toList), ("email".toList, .str email.toList)]

/-- A config with the VLESS inbound `vless-in`. -/
def vlessConfig (clients : List Json) : Json :=
  .obj [("inbounds".toList, .arr [.obj [("tag".toList, .str "vless-in".toList),
    ("protocol".toList, .str "vless".toList), ("settings".toList, .obj [("clients".toList, .arr clients)])]])]

def vlessAdapter : Adapter := ⟨"vless-in".toList, false⟩

/-- The client `a` gets the label `y`. -/
def renameToY : ConfigCall := ⟨.renameClients [("a".toList, "y".toList)] false, .unset⟩

theorem distinctClients_vlessConfig {clients : List Json} (h : Distinct clients) :
    DistinctClients vlessAdapter (vlessConfig clients) :=
  (distinctClients_iff (show vlessAdapter.findTarget (vlessConfig clients) = some _ from rfl) rfl).2 h

theorem distinct_two (id email id' email' : String) (hid : id.toList ≠ id'.toList)
    (hemail : email.toList ≠ email'.toList) : Distinct [clientOf id email, clientOf id' email'] := by
  constructor
  · show [Json.str id.toList, .str id'.toList].Nodup
    simpa using hid
  · show [Json.str email.toList, .str email'.toList].Nodup
    simpa using hemail

/-- Another client has the label `y` already. -/
theorem rename_to_taken_label : ¬ ∀ (adapter : Adapter) (config config' : Json) (call : ConfigCall),
    DistinctClients adapter config → call.op.DistinctLabels → configStep adapter config call = some config' →
    KeepsInvariants adapter config call config' := by
  intro h
  have hdistinct := distinctClients_vlessConfig (distinct_two "a" "x" "b" "y" (by decide) (by decide))
  have hstep : configStep vlessAdapter (vlessConfig [clientOf "a" "x", clientOf "b" "y"]) renameToY =
      some (vlessConfig [clientOf "a" "y", clientOf "b" "y"]) := rfl
  have hlabels : renameToY.op.DistinctLabels := List.nodup_singleton _
  have hkeeps := h _ _ _ _ hdistinct hlabels hstep
  have hemails := (hkeeps.distinct _ [clientOf "a" "y", clientOf "b" "y"] rfl rfl).emails
  have htwice : ¬[Json.str "y".toList, .str "y".toList].Nodup := by simp
  exact htwice hemails

theorem config_invariants_iff_rename :
    Allowed (configStep vlessAdapter) (GoodCall vlessAdapter)
      (vlessConfig [clientOf "a" "x", clientOf "b" "z"]) [renameToY] ↔
    Allowed (configStep vlessAdapter) (Careful vlessAdapter)
      (vlessConfig [clientOf "a" "x", clientOf "b" "z"]) [renameToY] := by
  have hdistinct := distinctClients_vlessConfig (distinct_two "a" "x" "b" "z" (by decide) (by decide))
  have hrun : runFrom (configStep vlessAdapter) (vlessConfig [clientOf "a" "x", clientOf "b" "z"]) [renameToY] =
      some (vlessConfig [clientOf "a" "y", clientOf "b" "z"]) := rfl
  refine config_invariants_iff hdistinct (fun call hcall => ?_) hrun
  rw [List.mem_singleton.1 hcall]
  exact List.nodup_singleton _

end VpnBot.XrayConfig
