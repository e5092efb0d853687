import VpnBot.Subscription.Render

/-!
# The links of a subscription

The sort key of a child is total, since it ends with the id; so the order in which the children were read
does not matter.  A child is left out only when its relay cannot serve links, and then no other failure is
hidden: whatever else a child raises, the whole rendering raises (`renderLinks_spec`).
-/

namespace VpnBot.Subscription

open Py
open Bundles (KeyBundleKind)

variable {settings : Settings} {relays : RelaySnapshot} {style : NameStyle} {now : ℤ}
  {keys keys' : List VpnKey} {key : VpnKey} {links : List Text}

/-! ### The order -/

/-- The order of the subscription. -/
def Before (relays : RelaySnapshot) (a b : VpnKey) : Prop :=
  subscriptionSortKey relays a ≤ subscriptionSortKey relays b

instance : DecidableRel (Before relays) := fun a b =>
  inferInstanceAs (Decidable (subscriptionSortKey relays a ≤ subscriptionSortKey relays b))

theorem pairwise_inSubscriptionOrder : (inSubscriptionOrder relays keys).Pairwise (Before relays) := by
  have htotal : Std.Total (Before relays) := ⟨fun a b => le_total (subscriptionSortKey relays a) _⟩
  have htrans : IsTrans VpnKey (Before relays) := ⟨fun a b c hab hbc => le_trans hab hbc⟩
  exact List.pairwise_insertionSort (Before relays) keys

theorem perm_inSubscriptionOrder : (inSubscriptionOrder relays keys).Perm keys :=
  List.perm_insertionSort _ keys

theorem id_eq_of_before {a b : VpnKey} (hab : Before relays a b) (hba : Before relays b a) : a.id = b.id := by
  have hkey : subscriptionSortKey relays a = subscriptionSortKey relays b := le_antisymm hab hba
  have hpair := congrArg (fun k => ofLex (ofLex k).2) hkey
  exact congrArg Prod.snd hpair

/-- **The order depends on the children only.** -/
theorem inSubscriptionOrder_congr (hnodup : (keys.map VpnKey.id).Nodup) (hperm : keys'.Perm keys) :
    inSubscriptionOrder relays keys' = inSubscriptionOrder relays keys := by
  have hanti : ∀ a b, a ∈ inSubscriptionOrder relays keys' → b ∈ inSubscriptionOrder relays keys →
      Before relays a b → Before relays b a → a = b := by
    intro a b ha hb hab hba
    have ha' : a ∈ keys := hperm.mem_iff.1 (perm_inSubscriptionOrder.mem_iff.1 ha)
    have hb' : b ∈ keys := perm_inSubscriptionOrder.mem_iff.1 hb
    exact List.inj_on_of_nodup_map hnodup ha' hb' (id_eq_of_before hab hba)
  exact List.Perm.eq_of_pairwise hanti pairwise_inSubscriptionOrder pairwise_inSubscriptionOrder
    ((perm_inSubscriptionOrder.trans hperm).trans perm_inSubscriptionOrder.symm)

/-- Some children of a list are listed as the whole list is. -/
theorem inSubscriptionOrder_filter (hnodup : (keys.map VpnKey.id).Nodup) (p : VpnKey → Bool) :
    inSubscriptionOrder relays (keys.filter p) = (inSubscriptionOrder relays keys).filter p := by
  have hanti : ∀ a b, a ∈ inSubscriptionOrder relays (keys.filter p) →
      b ∈ (inSubscriptionOrder relays keys).filter p → Before relays a b → Before relays b a → a = b := by
    intro a b ha hb hab hba
    have ha' : a ∈ keys := List.mem_of_mem_filter (perm_inSubscriptionOrder.mem_iff.1 ha)
    have hb' : b ∈ keys := perm_inSubscriptionOrder.mem_iff.1 (List.mem_of_mem_filter hb)
    exact List.inj_on_of_nodup_map hnodup ha' hb' (id_eq_of_before hab hba)
  exact List.Perm.eq_of_pairwise hanti pairwise_inSubscriptionOrder
    (pairwise_inSubscriptionOrder.filter p)
    (perm_inSubscriptionOrder.trans (perm_inSubscriptionOrder.filter p).symm)

/-! ### The links -/

theorem renderEach_ok_iff : renderEach settings relays style now keys = .ok links ↔
    List.Forall₂ (fun key link => renderChild settings relays style now key = .ok link)
      (keys.filter fun key => !isSkipped relays key) links := by
  induction keys generalizing links with
  | nil =>
    rw [List.filter_nil, List.forall₂_nil_left_iff]
    constructor
    · intro h
      exact (Except.ok.inj h).symm
    · rintro rfl
      rfl
  | cons key keys ih =>
    rw [renderEach, List.filter_cons]
    cases hskip : isSkipped relays key with
    | true => exact ih
    | false =>
      show _ ↔ List.Forall₂ _ (key :: keys.filter fun key => !isSkipped relays key) links
      rw [List.forall₂_cons_left_iff]
      cases hlink : renderChild settings relays style now key with
      | error e =>
        refine iff_of_false nofun ?_
        rintro ⟨link, tail, hok, -⟩
        cases hok
      | ok link =>
        cases hrest : renderEach settings relays style now keys with
        | error e =>
          refine iff_of_false nofun ?_
          rintro ⟨link', tail, -, htail, -⟩
          rw [ih.2 htail] at hrest
          cases hrest
        | ok tail =>
          constructor
          · rintro h
            cases h
            exact ⟨link, tail, rfl, ih.1 hrest, rfl⟩
          · rintro ⟨link', tail', hok, htail, rfl⟩
            cases hok
            rw [ih.2 htail] at hrest
            cases hrest
            rfl

theorem exists_forall₂_iff {α β : Type} {r : α → β → Prop} {l : List α} :
    (∃ l', List.Forall₂ r l l') ↔ ∀ a ∈ l, ∃ b, r a b := by
  induction l with
  | nil => exact iff_of_true ⟨[], .nil⟩ fun _ h => by cases h
  | cons a l ih =>
    rw [List.forall_mem_cons, ← ih]
    constructor
    · rintro ⟨l', h⟩
      obtain ⟨b, t, hb, ht, -⟩ := List.forall₂_cons_left_iff.1 h
      exact ⟨⟨b, hb⟩, t, ht⟩
    · rintro ⟨⟨b, hb⟩, t, ht⟩
      exact ⟨b :: t, .cons hb ht⟩

theorem get_of_not_isSkipped {relay : Text} (hrelay : key.relay = some relay)
    (hskip : isSkipped relays key = false) :
    ∃ known, relays.get relay = some known ∧ (known.enabled && !known.host.isEmpty) = true := by
  have havailable : relays.relayAvailable relay = true := by
    rw [isSkipped, hrelay] at hskip
    simpa using hskip
  unfold RelaySnapshot.relayAvailable at havailable
  cases hget : relays.get relay with
  | none =>
    rw [hget] at havailable
    cases havailable
  | some known =>
    rw [hget] at havailable
    exact ⟨known, rfl, havailable⟩

theorem relayLinkHost_isOk (hskip : isSkipped relays key = false) (directHost : Text) :
    ∃ host, relays.relayLinkHost key.relay directHost = .ok host := by
  cases hrelay : key.relay with
  | none => exact ⟨directHost, rfl⟩
  | some relay =>
    obtain ⟨known, hget, havailable⟩ := get_of_not_isSkipped hrelay hskip
    refine ⟨known.host, ?_⟩
    unfold RelaySnapshot.relayLinkHost
    simp only [hget]
    exact if_pos havailable

theorem keyDisplayName_isOk (hskip : isSkipped relays key = false) :
    ∃ name, keyDisplayName settings relays style key = .ok name := by
  unfold keyDisplayName
  by_cases hlabel : keyLabel key = []
  · exact ⟨[], if_pos hlabel⟩
  · simp only [if_neg hlabel]
    match hrelay : key.relay with
    | none => exact ⟨_, rfl⟩
    | some [] => exact ⟨_, rfl⟩
    | some (c :: relay) =>
      obtain ⟨known, hget, -⟩ := get_of_not_isSkipped hrelay hskip
      have hmarker : relays.relayMarker (c :: relay) = .ok known.label := by
        unfold RelaySnapshot.relayMarker
        rw [hget]
      refine ⟨keyLabel key ++ ['_'] ++ known.label ++ nameTail settings style key, ?_⟩
      simp only [hmarker]
      rfl

theorem encoded_ne {link : Option Text} {relay : Text} : encoded link ≠ .error (.relayUnavailable relay) := by
  cases link with
  | none => exact fun h => nomatch Except.error.inj h
  | some link => exact nofun

theorem renderChild_ne (hskip : isSkipped relays key = false) (relay : Text) :
    renderChild settings relays style now key ≠ .error (.relayUnavailable relay) := by
  obtain ⟨name, hname⟩ : ∃ name, keyDisplayName settings relays style key = .ok name :=
    keyDisplayName_isOk hskip
  obtain ⟨xrayHost, hxray⟩ := relayLinkHost_isOk hskip settings.xrayPublicHost
  obtain ⟨hysteria2Host, hhysteria2⟩ := relayLinkHost_isOk hskip settings.hysteria2Host
  unfold renderChild
  cases key.keyType with
  | awg => exact fun h => nomatch Except.error.inj h
  | xray =>
    show vlessLink settings relays style now key ≠ _
    unfold vlessLink
    rw [hname, hxray]
    show (if _ then Except.error (RenderError.noCredential key.id) else encoded _) ≠ _
    split_ifs
    · exact fun h => nomatch Except.error.inj h
    · exact encoded_ne
  | hysteria2 =>
    show hysteria2Link settings relays style key ≠ _
    unfold hysteria2Link
    rw [hname, hhysteria2]
    show (if _ then Except.error (RenderError.noCredential key.id) else encoded _) ≠ _
    split_ifs
    · exact fun h => nomatch Except.error.inj h
    · exact encoded_ne

/-! ### The subscription -/

/-- An active child whose relay is absent or available. -/
def isServed (relays : RelaySnapshot) (key : VpnKey) : Bool :=
  key.status = .active && !isSkipped relays key

/-- The served children in the order of the preview. -/
def served (relays : RelaySnapshot) (children : Children) : List VpnKey :=
  (inSubscriptionOrder relays children.keys).filter (isServed relays)

theorem filter_orderedChildren (kind : KeyBundleKind) (children : Children) :
    (orderedChildren relays (bundleView kind children relays).keys).filter (fun key => !isSkipped relays key) =
      served relays children := by
  have hactive : inSubscriptionOrder relays (children.keys.filter fun key => key.status = .active) =
      (inSubscriptionOrder relays children.keys).filter fun key => key.status = .active :=
    inSubscriptionOrder_filter children.nodup _
  show (inSubscriptionOrder relays (children.keys.filter fun key => key.status = .active)).filter _ = _
  rw [hactive, List.filter_filter]
  exact List.filter_congr fun key _ => Bool.and_comm _ _

theorem renderLinks_ok_iff (kind : KeyBundleKind) (children : Children) :
    renderLinks settings now (bundleView kind children relays) = .ok links ↔
      List.Forall₂ (fun key link => renderChild settings relays (bundleNameStyle kind) now key = .ok link)
        (served relays children) links := by
  rw [← filter_orderedChildren kind]
  exact renderEach_ok_iff

/-- What a subscription with these children is. -/
structure Renders (settings : Settings) (relays : RelaySnapshot) (now : ℤ) (kind : KeyBundleKind)
    (children : Children) : Prop where
  /-- Each child that is served has one link, and the links are in the order of the preview. -/
  links : ∀ links, renderLinks settings now (bundleView kind children relays) = .ok links ↔
    List.Forall₂ (fun key link => renderChild settings relays (bundleNameStyle kind) now key = .ok link)
      (served relays children) links
  perm : (served relays children).Perm (children.keys.filter (isServed relays))
  /-- The order in which the children were read does not matter. -/
  anyOrder : ∀ children' : Children, children'.keys.Perm children.keys →
    renderLinks settings now (bundleView kind children' relays) =
      renderLinks settings now (bundleView kind children relays)
  /-- One served child without a link is enough for a failure. -/
  fails : (∃ e, renderLinks settings now (bundleView kind children relays) = .error e) ↔
    ∃ key ∈ children.keys, isServed relays key ∧
      ∃ e, renderChild settings relays (bundleNameStyle kind) now key = .error e
  /-- A child that is not skipped is not refused for its relay. -/
  reason : ∀ key ∈ children.keys, isSkipped relays key = false → ∀ relay,
    renderChild settings relays (bundleNameStyle kind) now key ≠ .error (.relayUnavailable relay)

/-- **The links of a subscription.** -/
theorem renderLinks_spec (settings : Settings) (relays : RelaySnapshot) (now : ℤ) (kind : KeyBundleKind)
    (children : Children) : Renders settings relays now kind children := by
  have hmem : ∀ key, key ∈ served relays children ↔ key ∈ children.keys ∧ isServed relays key := by
    intro key
    unfold served
    rw [List.mem_filter, perm_inSubscriptionOrder.mem_iff]
  refine ⟨fun links => renderLinks_ok_iff kind children, perm_inSubscriptionOrder.filter _,
    fun children' hperm => ?_, ?_, fun key _ hskip => renderChild_ne hskip⟩
  · have hactive : (bundleView kind children' relays).keys.Perm (bundleView kind children relays).keys :=
      hperm.filter _
    have hnodup : ((bundleView kind children relays).keys.map VpnKey.id).Nodup :=
      children.nodup.sublist (List.filter_sublist.map _)
    have horder : orderedChildren relays (bundleView kind children' relays).keys =
        orderedChildren relays (bundleView kind children relays).keys :=
      inSubscriptionOrder_congr hnodup hactive
    show renderEach settings relays (bundleNameStyle kind) now
      (orderedChildren relays (bundleView kind children' relays).keys) = _
    rw [horder]
    rfl
  · have hok : (∃ links, renderLinks settings now (bundleView kind children relays) = .ok links) ↔
        ∀ key ∈ served relays children, ∃ link,
          renderChild settings relays (bundleNameStyle kind) now key = .ok link := by
      rw [← exists_forall₂_iff]
      exact exists_congr fun links => renderLinks_ok_iff kind children
    have herror : ∀ {α : Type} (r : Except RenderError α), (∃ e, r = .error e) ↔ ¬ ∃ a, r = .ok a := by
      intro α r
      cases r <;> simp
    rw [herror, hok, not_forall]
    refine exists_congr fun key => ?_
    rw [Classical.not_imp, hmem, and_assoc, herror]

end VpnBot.Subscription
