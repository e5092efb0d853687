import VpnBot.Deploy.BackendSync

/-!
# The bot-owned region across an installation

`KeepsBotRegion` says what the installation promises about the config it writes: the clients and
the short ids of every live inbound are on the inbound of the same tag, and the `sendThrough` of
every live freedom outbound is on the outbound of the same tag.

The script looks up clients and short ids by tag in dictionaries that keep the last inbound of a
tag, writes short ids only where the skeleton has `realitySettings`, hands out `sendThrough` in the
order of the freedom outbounds, and compares nothing but the total number of clients.
`keepsBotRegion_iff` gives the condition on the two configs (`CarriesOver`) under which that keeps
the bot-owned region.
-/

namespace VpnBot.Deploy

open Py

/-- The entries of a list of the config. -/
def entries (cfg : Json) (k : Text) : List Json := (cfg.field k).items

/-- The clients and short ids of the live inbounds are on an inbound of the same tag, the
`sendThrough` of the live freedom outbounds on an outbound of the same tag. -/
def KeepsBotRegion (host : Host) (live merged : Json) : Prop :=
  (∀ inbound ∈ entries live "inbounds".toList,
    (∀ clients, clientsOf inbound = some clients → ∃ m ∈ entries merged "inbounds".toList,
      tagOf host m = tagOf host inbound ∧ clientsOf m = some clients) ∧
    (∀ shortIds, shortIdsOf inbound = some shortIds → ∃ m ∈ entries merged "inbounds".toList,
      tagOf host m = tagOf host inbound ∧ shortIdsOf m = some shortIds)) ∧
  ∀ outbound ∈ entries live "outbounds".toList, isFreedom outbound = true →
    outbound.field "sendThrough".toList ≠ .null → ∃ m ∈ entries merged "outbounds".toList,
      tagOf host m = tagOf host outbound ∧
        m.field "sendThrough".toList = outbound.field "sendThrough".toList

/-! ### The condition -/

/-- The `sendThrough` of the live freedom outbounds, in order. -/
def liveSendThrough (live : Json) : List Json :=
  ((entries live "outbounds".toList).filter isFreedom).map (·.field "sendThrough".toList)

/-- The `sendThrough` of a skeleton outbound behind the outbounds `before`: the value at its position
among the freedom outbounds, or its own one when that value is missing or empty. -/
def sendThroughAt (values before : List Json) (outbound : Json) : Json :=
  ((if isFreedom outbound then values[(before.filter isFreedom).length]? else none).filter
    Json.truthy).getD (outbound.field "sendThrough".toList)

/-- A skeleton inbound of the tag exists, and the last live inbound of the tag has the same clients
(where it has none, the skeleton inbound). -/
def CarriesClients (host : Host) (liveByTag : Dict Text Json) (planned inbound : Json) : Prop :=
  ∀ clients, clientsOf inbound = some clients → ∃ s ∈ entries planned "inbounds".toList,
    tagOf host s = tagOf host inbound ∧
      ((liveByTag.get? (tagOf host inbound)).bind clientsOf).or (clientsOf s) = some clients

/-- A skeleton inbound of the tag exists, with `realitySettings`, and the last live inbound of the
tag has the same short ids (where it has none, the skeleton inbound). -/
def CarriesShortIds (host : Host) (liveByTag : Dict Text Json) (planned inbound : Json) : Prop :=
  ∀ shortIds, shortIdsOf inbound = some shortIds → ∃ s ∈ entries planned "inbounds".toList,
    tagOf host s = tagOf host inbound ∧ (realityOf s).isObj = true ∧
      ((liveByTag.get? (tagOf host inbound)).bind shortIdsOf).or (shortIdsOf s) = some shortIds

/-- Some skeleton outbound of the tag gets the `sendThrough` of the live one. -/
def CarriesSendThrough (host : Host) (live planned outbound : Json) : Prop :=
  outbound.field "sendThrough".toList ≠ .null →
    ∃ before s after, entries planned "outbounds".toList = before ++ s :: after ∧
      tagOf host s = tagOf host outbound ∧
        sendThroughAt (liveSendThrough live) before s = outbound.field "sendThrough".toList

/-- The live inbounds by tag and the skeleton with its placeholders resolved match the live config
closely enough. -/
def CarriesOver (host : Host) (skeleton live : Json) : Prop :=
  ∃ liveByTag planned lines, keyInboundsByTag host live = .ok liveByTag ∧
    planSkeleton host skeleton live = .ok (planned, lines) ∧
    (∀ inbound ∈ entries live "inbounds".toList,
      CarriesClients host liveByTag planned inbound ∧
        CarriesShortIds host liveByTag planned inbound) ∧
    ∀ outbound ∈ entries live "outbounds".toList, isFreedom outbound = true →
      CarriesSendThrough host live planned outbound

/-! ### The steps of an installation -/

/-- What has happened when a config was written. -/
theorem installXray_steps {host : Host} {skeleton live merged : Json}
    (h : installXray host skeleton live = .ok (some merged)) :
    ∃ state plan, extractBotState host live = .ok state ∧
      planSkeleton host skeleton live = .ok plan ∧ putBack host state plan.1 = .ok merged := by
  obtain ⟨merged', hmerge, h⟩ := bind_eq_ok.1 h
  have hm : merged' = merged := by
    split_ifs at h with hd
    · cases h
    · cases hx : host.xrayTest with
      | none => rw [hx] at h; cases h
      | some accepts =>
        rw [hx] at h
        obtain ⟨_, _, h⟩ := bind_eq_ok.1 h
        cases h
        rfl
  subst hm
  obtain ⟨state, hstate, h⟩ := bind_eq_ok.1 hmerge
  obtain ⟨_, _, h⟩ := bind_eq_ok.1 h
  obtain ⟨plan, hplan, h⟩ := bind_eq_ok.1 h
  obtain ⟨_, _, h⟩ := bind_eq_ok.1 h
  obtain ⟨merged, hput, h⟩ := bind_eq_ok.1 h
  obtain ⟨_, _, h⟩ := bind_eq_ok.1 h
  obtain ⟨_, _, h⟩ := bind_eq_ok.1 h
  cases h
  exact ⟨state, plan, hstate, hplan, hput⟩

/-! ### What is read from the live config -/

/-- The value that is last stored under a key, in a list of pairs. -/
def lookup {ν : Type} (l : List (Text × ν)) (key : Text) : Option ν :=
  (l.find? fun p => p.1 = key).map Prod.snd

theorem lookup_cons {ν : Type} (p : Text × ν) (l : List (Text × ν)) (key : Text) :
    lookup (p :: l) key = if p.1 = key then some p.2 else lookup l key := by
  unfold lookup
  rw [List.find?_cons]
  by_cases h : p.1 = key <;> simp [h]

theorem lookup_eq_none {ν : Type} {l : List (Text × ν)} {key : Text}
    (h : key ∉ l.map Prod.fst) : lookup l key = none := by
  rw [lookup, Option.map_eq_none_iff, List.find?_eq_none]
  intro p hp
  simp only [decide_eq_true_eq]
  rintro rfl
  exact h (List.mem_map_of_mem hp)

theorem extractInbound_foldlM {inbounds : List (Text × Json)} {state state' : BotState}
    (hnodup : (inbounds.map Prod.fst).Nodup)
    (h : inbounds.foldlM extractInbound state = .ok state') (tag : Text) :
    state'.clients.get? tag =
        ((lookup inbounds tag).bind clientsOf).or (state.clients.get? tag) ∧
      state'.shortIds.get? tag =
        ((lookup inbounds tag).bind shortIdsOf).or (state.shortIds.get? tag) := by
  induction inbounds generalizing state with
  | nil =>
    cases h
    exact ⟨rfl, rfl⟩
  | cons entry inbounds ih =>
    rw [List.foldlM_cons] at h
    rw [List.map_cons, List.nodup_cons] at hnodup
    obtain ⟨mid, hmid, h⟩ := bind_eq_ok.1 h
    obtain ⟨_, _, hmid⟩ := bind_eq_ok.1 hmid
    cases hmid
    obtain ⟨hc, hs⟩ := ih hnodup.2 h
    rw [hc, hs, Dict.get?_setIfSome, Dict.get?_setIfSome, lookup_cons]
    by_cases ht : entry.1 = tag
    · subst ht
      simp [lookup_eq_none hnodup.1]
    · simp [ht, Ne.symm ht]

theorem field_of_getField {v r : Json} {k : Text} (h : getField v k = .ok r) : v.field k = r := by
  unfold getField at h
  split_ifs at h
  exact Except.ok.inj h

theorem filter_isFreedom_str {α : Type} {f : α → Text} (l : List α) :
    (l.map fun a => Json.str (f a)).filter isFreedom = [] := by
  rw [List.filter_eq_nil_iff]
  intro v hv
  obtain ⟨a, -, rfl⟩ := List.mem_map.1 hv
  exact Bool.false_ne_true

theorem filter_isFreedom_iterOrEmpty {v : Json} {l : List Json} (h : iterOrEmpty v = .ok l) :
    v.items.filter isFreedom = l.filter isFreedom := by
  unfold iterOrEmpty at h
  split_ifs at h with ht
  · cases h
    cases v with
    | arr items =>
      have hnil : items = [] := by simpa [Json.truthy] using ht
      rw [hnil]
      rfl
    | _ => rfl
  · cases v with
    | arr items => cases h; rfl
    | str t =>
      cases h
      exact (filter_isFreedom_str _).symm
    | obj fs =>
      cases h
      exact (filter_isFreedom_str _).symm
    | _ => cases h

/-- **The extracted state holds what the last live inbound of each tag has.** -/
theorem extractBotState_steps {host : Host} {live : Json} {state : BotState}
    (h : extractBotState host live = .ok state) :
    ∃ liveByTag, keyInboundsByTag host live = .ok liveByTag ∧
      (∀ tag, state.clients.get? tag = (liveByTag.get? tag).bind clientsOf) ∧
      (∀ tag, state.shortIds.get? tag = (liveByTag.get? tag).bind shortIdsOf) ∧
      state.sendThrough = liveSendThrough live := by
  obtain ⟨liveByTag, hkey, h⟩ := bind_eq_ok.1 h
  obtain ⟨state', hfold, h⟩ := bind_eq_ok.1 h
  obtain ⟨field, hfield, h⟩ := bind_eq_ok.1 h
  obtain ⟨outbounds, hiter, h⟩ := bind_eq_ok.1 h
  cases h
  have hget := extractInbound_foldlM liveByTag.nodup hfold
  refine ⟨liveByTag, hkey, fun tag => ?_, fun tag => ?_, ?_⟩
  · rw [(hget tag).1, Dict.get?_empty, Option.or_none]
    rfl
  · rw [(hget tag).2, Dict.get?_empty, Option.or_none]
    rfl
  · change (outbounds.filter isFreedom).map _ = liveSendThrough live
    rw [liveSendThrough, entries, field_of_getField hfield, filter_isFreedom_iterOrEmpty hiter]

/-! ### Lists of entries -/

theorem entriesOf_eq {cfg : Json} {k : Text} {l : List Json} (h : entriesOf cfg k = .ok l) :
    entries cfg k = l := by
  unfold entriesOf at h
  unfold entries
  split_ifs at h with ht
  · cases hf : cfg.field k with
    | arr items =>
      rw [hf] at h
      exact Except.ok.inj h
    | _ => rw [hf] at h; cases h
  · cases h
    cases hf : cfg.field k with
    | arr items =>
      rw [hf] at ht
      simpa [Json.truthy] using ht
    | _ => rfl

theorem entries_setEntries_self {cfg : Json} {k : Text} {l : List Json}
    (hlen : l.length = (entries cfg k).length) : entries (setEntries cfg k l) k = l := by
  unfold setEntries
  split_ifs with hl
  · rw [List.isEmpty_iff] at hl
    rw [hl] at hlen ⊢
    exact List.length_eq_zero_iff.1 hlen.symm
  · have hobj : cfg.isObj = true := by
      cases cfg with
      | obj fs => rfl
      | _ =>
        rw [List.isEmpty_iff] at hl
        exact absurd (List.length_eq_zero_iff.1 hlen) hl
    rw [entries, Json.field_set_self hobj]
    rfl

theorem entries_setEntries_of_ne (cfg : Json) {k k' : Text} (l : List Json) (h : k' ≠ k) :
    entries (setEntries cfg k l) k' = entries cfg k' := by
  unfold setEntries
  split_ifs
  · rfl
  · rw [entries, entries, Json.field_set_of_ne _ _ h]

/-! ### What is put back -/

theorem tagOf_set (host : Host) (entry : Json) {k : Text} (v : Json) (h : "tag".toList ≠ k) :
    tagOf host (entry.set k v) = tagOf host entry := by
  rw [tagOf, tagOf, Json.field_set_of_ne _ _ h]

theorem putBackClients_spec (host : Host) {state : BotState} {tag : Text} {inbound r : Json}
    (hobj : inbound.isObj = true) (h : putBackClients state tag inbound = .ok r) :
    r.isObj = true ∧ tagOf host r = tagOf host inbound ∧
      r.field "streamSettings".toList = inbound.field "streamSettings".toList ∧
      clientsOf r = (state.clients.get? tag).or (clientsOf inbound) := by
  unfold putBackClients at h
  cases hc : state.clients.get? tag with
  | none =>
    rw [hc] at h
    cases h
    exact ⟨hobj, rfl, rfl, by rw [Option.none_or]⟩
  | some clients =>
    rw [hc] at h
    simp only [setClients] at h
    split_ifs at h with hs
    cases h
    refine ⟨by rw [Json.isObj_set, hobj], tagOf_set host _ _ (by decide),
      Json.field_set_of_ne _ _ (by decide), ?_⟩
    rw [clientsOf, Json.field_set_self hobj, Json.field_set_self hs, Option.some_or]
    rfl

theorem putBackShortIds_spec (host : Host) {state : BotState} {tag : Text} {inbound r : Json}
    (hobj : inbound.isObj = true) (h : putBackShortIds state tag inbound = .ok r) :
    tagOf host r = tagOf host inbound ∧ clientsOf r = clientsOf inbound ∧
      ∀ shortIds, shortIdsOf r = some shortIds ↔ (realityOf inbound).isObj = true ∧
        (state.shortIds.get? tag).or (shortIdsOf inbound) = some shortIds := by
  have hreality : ∀ i : Json, ∀ s, shortIdsOf i = some s → (realityOf i).isObj = true := by
    intro i s hs
    unfold shortIdsOf at hs
    cases hr : realityOf i with
    | obj fs => rfl
    | _ => rw [hr] at hs; cases hs
  unfold putBackShortIds at h
  cases hc : state.shortIds.get? tag with
  | none =>
    rw [hc] at h
    cases h
    refine ⟨rfl, rfl, fun s => ?_⟩
    rw [Option.none_or]
    exact ⟨fun hs => ⟨hreality _ s hs, hs⟩, fun hs => hs.2⟩
  | some ids =>
    rw [hc] at h
    obtain ⟨_, _, h⟩ := bind_eq_ok.1 h
    simp only at h
    split_ifs at h with hr
    · cases h
      have hstream : (inbound.field "streamSettings".toList).isObj = true := by
        cases hs : inbound.field "streamSettings".toList with
        | obj fs => rfl
        | _ =>
          rw [realityOf, hs] at hr
          cases hr
      refine ⟨tagOf_set host _ _ (by decide), ?_, fun s => ?_⟩
      · rw [clientsOf, Json.field_set_of_ne _ _ (by decide), ← clientsOf]
      · rw [shortIdsOf, realityOf, Json.field_set_self hobj, Json.field_set_self hstream,
          Json.field_set_self hr]
        exact ⟨fun he => ⟨hr, he⟩, fun he => he.2⟩
    · cases h
      refine ⟨rfl, rfl, fun s => ⟨fun hs => absurd (hreality _ s hs) hr, fun hs => absurd hs.1 hr⟩⟩

/-- **What one inbound has after the loop.** -/
theorem putBackInbound_spec {host : Host} {state : BotState} {inbound r : Json}
    (h : putBackInbound host state inbound = .ok r) :
    tagOf host r = tagOf host inbound ∧
      clientsOf r = (state.clients.get? (tagOf host inbound)).or (clientsOf inbound) ∧
      ∀ shortIds, shortIdsOf r = some shortIds ↔ (realityOf inbound).isObj = true ∧
        (state.shortIds.get? (tagOf host inbound)).or (shortIdsOf inbound) = some shortIds := by
  unfold putBackInbound at h
  split_ifs at h with hobj
  have hobj : inbound.isObj = true := by simpa using hobj
  obtain ⟨mid, hmid, h⟩ := bind_eq_ok.1 h
  obtain ⟨hmobj, hmtag, hmstream, hmclients⟩ := putBackClients_spec host hobj hmid
  obtain ⟨htag, hclients, hshort⟩ := putBackShortIds_spec host hmobj h
  have hreality : realityOf mid = realityOf inbound := by rw [realityOf, hmstream, realityOf]
  refine ⟨htag.trans hmtag, hclients.trans hmclients, fun s => ?_⟩
  rw [hshort, shortIdsOf, shortIdsOf, hreality]

theorem putBackOutbound_spec (host : Host) {outbound : Json} (hobj : outbound.isObj = true)
    (value : Option Json) :
    tagOf host (putBackOutbound value outbound) = tagOf host outbound ∧
      (putBackOutbound value outbound).field "sendThrough".toList =
        (value.filter Json.truthy).getD (outbound.field "sendThrough".toList) := by
  unfold putBackOutbound
  cases value.filter Json.truthy with
  | none => exact ⟨rfl, rfl⟩
  | some v => exact ⟨tagOf_set host _ _ (by decide), Json.field_set_self hobj _ _⟩

/-- The `sendThrough` of the outbounds after the loop, the values being handed out in turn. -/
theorem putBackOutbounds_spec {host : Host} {values outbounds r : List Json}
    (h : putBackOutbounds values outbounds = .ok r) (tag : Text) (v : Json) :
    (∃ m ∈ r, tagOf host m = tag ∧ m.field "sendThrough".toList = v) ↔
      ∃ before s after, outbounds = before ++ s :: after ∧ tagOf host s = tag ∧
        sendThroughAt values before s = v := by
  induction outbounds generalizing values r with
  | nil =>
    cases h
    simp
  | cons outbound outbounds ih =>
    rw [putBackOutbounds] at h
    rw [exists_split_cons]
    split_ifs at h with hobj hfree
    · -- a freedom outbound takes the next value
      obtain ⟨rest, hrest, h⟩ := bind_eq_ok.1 h
      cases h
      have hhead := putBackOutbound_spec host (by simpa using hobj) values.head?
      have hat : ∀ before s,
          sendThroughAt values (outbound :: before) s = sendThroughAt values.tail before s := by
        intro before s
        rw [sendThroughAt, sendThroughAt, List.filter_cons_of_pos hfree, List.length_cons,
          List.getElem?_tail]
      have hnow : sendThroughAt values [] outbound =
          (putBackOutbound values.head? outbound).field "sendThrough".toList := by
        rw [hhead.2, sendThroughAt, if_pos hfree, List.filter_nil, List.length_nil,
          List.head?_eq_getElem?]
      simp only [List.exists_mem_cons_iff, hhead.1, hnow, hat, ih hrest]
    · -- another outbound is left alone
      obtain ⟨rest, hrest, h⟩ := bind_eq_ok.1 h
      cases h
      have hat : ∀ before s,
          sendThroughAt values (outbound :: before) s = sendThroughAt values before s := by
        intro before s
        rw [sendThroughAt, sendThroughAt, List.filter_cons_of_neg hfree]
      have hnow : sendThroughAt values [] outbound = outbound.field "sendThrough".toList := by
        rw [sendThroughAt, if_neg hfree]
        rfl
      simp only [List.exists_mem_cons_iff, hnow, hat, ih hrest]

theorem length_putBackOutbounds {values outbounds r : List Json}
    (h : putBackOutbounds values outbounds = .ok r) : r.length = outbounds.length := by
  induction outbounds generalizing values r with
  | nil =>
    cases h
    rfl
  | cons outbound outbounds ih =>
    rw [putBackOutbounds] at h
    split_ifs at h
    · obtain ⟨rest, hrest, h⟩ := bind_eq_ok.1 h
      cases h
      rw [List.length_cons, List.length_cons, ih hrest]
    · obtain ⟨rest, hrest, h⟩ := bind_eq_ok.1 h
      cases h
      rw [List.length_cons, List.length_cons, ih hrest]

/-! ### The result -/

/-- **The written config keeps the bot-owned region exactly when the two configs match.** -/
theorem keepsBotRegion_iff {host : Host} {skeleton live merged : Json}
    (h : installXray host skeleton live = .ok (some merged)) :
    KeepsBotRegion host live merged ↔ CarriesOver host skeleton live := by
  obtain ⟨state, plan, hstate, hplan, hput⟩ := installXray_steps h
  obtain ⟨liveByTag, hkey, hclients, hshort, hsend⟩ := extractBotState_steps hstate
  obtain ⟨inbounds, hin, hput⟩ := bind_eq_ok.1 hput
  obtain ⟨inbounds', hin', hput⟩ := bind_eq_ok.1 hput
  obtain ⟨outbounds, hout, hput⟩ := bind_eq_ok.1 hput
  obtain ⟨outbounds', hout', hput⟩ := bind_eq_ok.1 hput
  cases hput
  have hrel := forall₂_of_mapM hin'
  rw [← entriesOf_eq hin] at hrel
  have hout := entriesOf_eq hout
  have hlen : outbounds'.length = outbounds.length := length_putBackOutbounds hout'
  -- the lists of the written config
  have hmin : entries (setEntries (setEntries plan.1 "inbounds".toList inbounds')
      "outbounds".toList outbounds') "inbounds".toList = inbounds' := by
    rw [entries_setEntries_of_ne _ _ (by decide), entries_setEntries_self hrel.length_eq.symm]
  have hmout : entries (setEntries (setEntries plan.1 "inbounds".toList inbounds')
      "outbounds".toList outbounds') "outbounds".toList = outbounds' :=
    entries_setEntries_self (by rw [hout, hlen])
  rw [entries_setEntries_of_ne _ _ (by decide)] at hout
  -- each part of the region is kept when the matching part of the condition holds
  have hc : ∀ inbound clients, (∃ m ∈ inbounds', tagOf host m = tagOf host inbound ∧
      clientsOf m = some clients) ↔ ∃ s ∈ entries plan.1 "inbounds".toList,
        tagOf host s = tagOf host inbound ∧
          ((liveByTag.get? (tagOf host inbound)).bind clientsOf).or (clientsOf s) = some clients := by
    intro inbound clients
    refine (exists_mem_iff_of_forall₂ hrel fun s m hsm => ?_).symm
    obtain ⟨htag, hcl, -⟩ := putBackInbound_spec hsm
    rw [htag, hcl, hclients]
    refine and_congr_right fun he => ?_
    rw [he]
  have hs : ∀ inbound shortIds, (∃ m ∈ inbounds', tagOf host m = tagOf host inbound ∧
      shortIdsOf m = some shortIds) ↔ ∃ s ∈ entries plan.1 "inbounds".toList,
        tagOf host s = tagOf host inbound ∧ (realityOf s).isObj = true ∧
          ((liveByTag.get? (tagOf host inbound)).bind shortIdsOf).or (shortIdsOf s) =
            some shortIds := by
    intro inbound shortIds
    refine (exists_mem_iff_of_forall₂ hrel fun s m hsm => ?_).symm
    obtain ⟨htag, -, hsh⟩ := putBackInbound_spec hsm
    rw [htag, hsh, hshort]
    refine and_congr_right fun he => ?_
    rw [he]
  have ho : ∀ outbound, (∃ m ∈ outbounds', tagOf host m = tagOf host outbound ∧
      m.field "sendThrough".toList = outbound.field "sendThrough".toList) ↔
        ∃ before s after, entries plan.1 "outbounds".toList = before ++ s :: after ∧
          tagOf host s = tagOf host outbound ∧
            sendThroughAt (liveSendThrough live) before s = outbound.field "sendThrough".toList := by
    intro outbound
    rw [putBackOutbounds_spec hout', hsend, hout]
  have hcond : CarriesOver host skeleton live ↔
      (∀ inbound ∈ entries live "inbounds".toList,
        CarriesClients host liveByTag plan.1 inbound ∧
          CarriesShortIds host liveByTag plan.1 inbound) ∧
      ∀ outbound ∈ entries live "outbounds".toList, isFreedom outbound = true →
        CarriesSendThrough host live plan.1 outbound := by
    constructor
    · rintro ⟨liveByTag', planned, lines, hkey', hplan', hcarry⟩
      rw [hkey] at hkey'
      rw [hplan] at hplan'
      cases hkey'
      cases hplan'
      exact hcarry
    · exact fun hcarry => ⟨liveByTag, plan.1, plan.2, hkey, hplan, hcarry⟩
  rw [hcond]
  simp only [KeepsBotRegion, hmin, hmout, CarriesClients, CarriesShortIds, CarriesSendThrough, hc,
    hs, ho]

/-! ### Two freedom outbounds in another order -/

/-- A host without `.env` values, on which `xray` accepts every config. -/
def plainHost : Host := ⟨Dict.empty, false, some fun _ => true, fun _ => []⟩

/-- An inbound of the tag `vless-in` with the given clients. -/
def vlessInbound (clients : List Json) : Json :=
  .obj [("tag".toList, .str "vless-in".toList),
    ("settings".toList, .obj [("clients".toList, .arr clients)])]

/-- A freedom outbound without `sendThrough`. -/
def freedomOutbound (tag : Text) : Json :=
  .obj [("tag".toList, .str tag), ("protocol".toList, .str FREEDOM_OUTBOUND_PROTOCOL)]

def xrayConfig (clients outbounds : List Json) : Json :=
  .obj [("inbounds".toList, .arr [vlessInbound clients]), ("outbounds".toList, .arr outbounds)]

/-- The live config: the outbound `warp` sends through `10.9.9.9`. -/
def warpLive : Json :=
  xrayConfig [.str "a".toList] [freedomOutbound "direct".toList,
    (freedomOutbound "warp".toList).set "sendThrough".toList (.str "10.9.9.9".toList)]

/-- The skeleton names the outbounds in the order of the live config, or in the other one. -/
def warpSkeleton (tags : List Text) : Json := xrayConfig [] (tags.map freedomOutbound)

theorem keepsBotRegion_iff_warp :
    KeepsBotRegion plainHost warpLive warpLive ↔
      CarriesOver plainHost (warpSkeleton ["direct".toList, "warp".toList]) warpLive :=
  keepsBotRegion_iff (show installXray plainHost (warpSkeleton ["direct".toList, "warp".toList])
    warpLive = .ok (some warpLive) from rfl)

/-- With the outbounds in the other order, `10.9.9.9` goes to `direct`. -/
theorem not_keepsBotRegion_warp :
    ¬ ∀ (host : Host) (skeleton live merged : Json),
      installXray host skeleton live = .ok (some merged) → KeepsBotRegion host live merged := by
  intro h
  have hwritten : installXray plainHost (warpSkeleton ["warp".toList, "direct".toList]) warpLive =
      .ok (some (xrayConfig [.str "a".toList] [freedomOutbound "warp".toList,
        (freedomOutbound "direct".toList).set "sendThrough".toList (.str "10.9.9.9".toList)])) := rfl
  have hkeeps := (h _ _ _ _ hwritten).2
  obtain ⟨m, hm, htag, hsend⟩ := hkeeps
    ((freedomOutbound "warp".toList).set "sendThrough".toList (.str "10.9.9.9".toList))
    (List.mem_cons_of_mem _ List.mem_cons_self) rfl (fun he => nomatch he)
  rcases List.mem_cons.1 hm with rfl | hm
  · exact nomatch hsend
  · rw [List.mem_singleton.1 hm] at htag
    exact absurd htag (by decide)

end VpnBot.Deploy
