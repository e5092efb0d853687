import Mathlib.Data.Char
import Mathlib.Data.List.Lex
import Mathlib.Data.Prod.Lex
import VpnBot.Keys.VpnKey
import VpnBot.Python.Text
import VpnBot.System.Pages
import VpnBot.Users.Roles

/-!
# The list of keys and subscriptions

`load_list_page` of `src/bot/handlers/keys.py` and the queries that it makes: `list_by_owner` and
`count_by_owner` of `src/repositories/vpn_keys.py`, `list_by_user` and `count_by_user` of
`src/repositories/key_bundles.py`, and the checks of the services in front of them.  Nothing is written
between the queries.

The rows of a table stand in the order in which SQLite delivers those that tie in an `ORDER BY`.

Not modelled: the columns of a row that neither a query nor the order reads.
-/

namespace VpnBot.Keys

open Py Sys Users

/-! ### Rows -/

/-- A row of `vpn_keys`. -/
structure KeyRow where
  id : ℕ
  ownerUserId : ℤ
  status : VpnKeyStatus
  createdAt : Text
  bundleId : Option ℕ
  deriving DecidableEq

/-- A row of `key_bundles`. -/
structure BundleRow where
  id : ℕ
  userId : ℤ
  createdAt : Text
  deriving DecidableEq

/-- What the list is made from: the tables, and `subscription_enabled`. -/
structure Services where
  users : UserTable
  keys : List KeyRow
  bundles : List BundleRow
  subscriptionEnabled : Bool
  keyIds : (keys.map KeyRow.id).Nodup
  bundleIds : (bundles.map BundleRow.id).Nodup

inductive Entry
  | key (row : KeyRow)
  | bundle (row : BundleRow)
  deriving DecidableEq

/-- `item.created_at`. -/
def Entry.createdAt : Entry → Text
  | .key row => row.createdAt
  | .bundle row => row.createdAt

/-- `_list_item_sort_key`. -/
def listItemSortKey : Entry → Text ×ₗ ℕ ×ₗ ℕ
  | .key row => toLex (row.createdAt, toLex (1, row.id))
  | .bundle row => toLex (row.createdAt, toLex (0, row.id))

/-- What the services raise, with the key of the text. -/
inductive ListError
  | notFound (key : Text)
  | accessDenied (key : Text)
  deriving DecidableEq

/-! ### Queries -/

namespace Services

variable (services : Services) (actor : ℤ) (owner : Option ℤ)

/-- `_BUNDLE_OWNED`. -/
def bundleOwned (row : KeyRow) : Bool := services.bundles.any fun bundle => row.bundleId = some bundle.id

/-- The rows of `list_by_owner` and `count_by_owner`. -/
def ownedKeys (ownerUserId : ℤ) (excludeBundled : Bool) : List KeyRow :=
  services.keys.filter fun row => row.ownerUserId = ownerUserId && row.status ≠ .deleted &&
    !(excludeBundled && services.bundleOwned row)

/-- `ORDER BY created_at DESC`. -/
def orderedKeys (ownerUserId : ℤ) (excludeBundled : Bool) : List KeyRow :=
  sortedByDesc KeyRow.createdAt (services.ownedKeys ownerUserId excludeBundled)

/-- `list_by_owner`. -/
def listByOwner (ownerUserId : ℤ) (limit offset : ℕ) (excludeBundled : Bool) : List KeyRow :=
  ((services.orderedKeys ownerUserId excludeBundled).drop offset).take (clampLimit limit)

/-- `ORDER BY created_at DESC, id DESC`. -/
def orderedBundles (userId : ℤ) : List BundleRow :=
  sortedByDesc (fun row => toLex (row.createdAt, row.id))
    (services.bundles.filter fun row => row.userId = userId)

/-- `list_by_user` from the top. -/
def listByUser (userId : ℤ) (limit : ℕ) : List BundleRow :=
  (services.orderedBundles userId).take (clampLimit limit)

/-! ### Checks -/

/-- `require_approved_or_admin`. -/
def requireApprovedOrAdmin : Except ListError User :=
  match services.users actor with
  | none => .error (.notFound "err_user_not_found".toList)
  | some user =>
    if user.role = .superadmin ∨ user.role = .moderator then .ok user
    else if isBlockedUser user then .error (.accessDenied "err_access_blocked".toList)
    else if user.role ≠ .approvedUser then .error (.accessDenied "access_not_approved".toList)
    else .ok user

/-- `owner_user_id or actor_user_id`. -/
def target : ℤ :=
  match owner with
  | none | some 0 => actor
  | some id => id

/-- The checks of `list_for_actor` and `count_for_actor` for keys, and the owner whose keys they are. -/
def requireKeys : Except ListError ℤ := do
  let user ← services.requireApprovedOrAdmin actor
  if user.role ≠ .superadmin ∧ target actor owner ≠ actor then
    .error (.accessDenied "err_foreign_keys_view".toList)
  else pure (target actor owner)

/-! ### The page -/

/-- `include_bundles`. -/
def includeBundles : Bool := owner.isNone && services.subscriptionEnabled

/-- `load_totals`. -/
def loadTotals : Except ListError (ℕ × ℕ) := do
  let ownerUserId ← services.requireKeys actor owner
  let keysTotal := (services.ownedKeys ownerUserId owner.isNone).length
  if services.includeBundles owner then
    let _ ← services.requireApprovedOrAdmin actor
    pure (keysTotal, (services.bundles.filter fun row => row.userId = actor).length)
  else pure (keysTotal, 0)

/-- `page_offset`. -/
def pageOffset (page pageSize : ℕ) : ℕ := min page 10000 * pageSize

/-- `load_page`. -/
def loadPage (pageSize currentPage bundlesTotal : ℕ) : Except ListError (List Entry) := do
  let ownerUserId ← services.requireKeys actor owner
  if bundlesTotal = 0 then
    pure ((services.listByOwner ownerUserId pageSize (pageOffset currentPage pageSize)
      owner.isNone).map Entry.key)
  else
    let window := min ((currentPage + 1) * pageSize) 500
    let keys := services.listByOwner ownerUserId window 0 owner.isNone
    let _ ← services.requireApprovedOrAdmin actor
    let bundles := services.listByUser actor window
    let merged := sortedByDesc listItemSortKey (keys.map Entry.key ++ bundles.map Entry.bundle)
    pure ((merged.drop (pageOffset currentPage pageSize)).take pageSize)

/-- `total_pages`. -/
def totalPages (pageSize keysTotal bundlesTotal : ℕ) : ℕ :=
  max 1 ((keysTotal + bundlesTotal + pageSize - 1) / pageSize)

/-- `load_list_page`: the entries, the page, the number of pages and `has_next`. -/
def loadListPage (pageSize : ℕ) (page : ℤ) : Except ListError (List Entry × ℕ × ℕ × Bool) := do
  let (keysTotal, bundlesTotal) ← services.loadTotals actor owner
  let total := totalPages pageSize keysTotal bundlesTotal
  let current := (min (max page 0) (total - 1)).toNat
  let items ← services.loadPage actor owner pageSize current bundlesTotal
  if items = [] ∧ 0 < current then
    let (keysTotal, bundlesTotal) ← services.loadTotals actor owner
    let total := totalPages pageSize keysTotal bundlesTotal
    let current := min (current - 1) (total - 1)
    let items ← services.loadPage actor owner pageSize current bundlesTotal
    pure (items, current, total, decide (current + 1 < total))
  else pure (items, current, total, decide (current + 1 < total))

end Services

end VpnBot.Keys
