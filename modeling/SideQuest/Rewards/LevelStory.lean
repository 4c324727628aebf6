import SideQuest.Auth.Sessions
import SideQuest.Quests.Alone
import SideQuest.Achievements.Fixpoint
import SideQuest.Rewards.NoLostXp

-- The LEVEL_UP events of a user tell the whole story of the level.

namespace SideQuest

open ReadCommitted QuestsService AchievementsService InvitesService AuthService

-- From one level to another, each rise from where the one before it has ended.
def Climbs : ℕ → List (ℕ × ℕ) → ℕ → Prop
  | level, [], last => last = level
  | level, (previous, next) :: rest, last =>
      previous = level ∧ previous < next ∧ Climbs next rest last

theorem Climbs.append {level middle last : ℕ} {rises rises' : List (ℕ × ℕ)}
    (h : Climbs level rises middle) (h' : Climbs middle rises' last) :
    Climbs level (rises ++ rises') last := by
  induction rises generalizing level with
  | nil =>
      cases h
      exact h'
  | cons rise rest ih => exact ⟨h.1, h.2.1, ih h.2.2⟩

-- The rises that the events announce to a user.
def levelUpsOf (userId : Id) (events : List AppEvent) : List (ℕ × ℕ) :=
  events.filterMap fun event =>
    match event with
    | .levelUp id previousLevel newLevel =>
        if id = userId then some (previousLevel, newLevel) else none
    | _ => none

theorem levelUpsOf_append (userId : Id) (events events' : List AppEvent) :
    levelUpsOf userId (events ++ events') = levelUpsOf userId events ++ levelUpsOf userId events' :=
  List.filterMap_append

theorem levelUpsOf_levelUps (userId id : Id) (previousLevel newLevel : ℕ) :
    levelUpsOf userId (levelUps id previousLevel newLevel) =
      if id = userId ∧ previousLevel < newLevel then [(previousLevel, newLevel)] else [] := by
  unfold levelUps levelUpsOf
  by_cases hup : newLevel > previousLevel <;> by_cases hid : id = userId <;> simp [hup, hid]

-- The XP and the level of a user.
def World.standing (w : World) (userId : Id) : Option (ℤ × ℕ) :=
  (w.users.find? userId).map fun user => (user.xp, user.level)

-- The stored levels are those of the XP, and the events lead to them from the first one.
structure LevelsTold (standing : Id → Option (ℤ × ℕ)) (events : List AppEvent) : Prop where
  curve : ∀ userId xp level, standing userId = some (xp, level) → level = levelFromXp xp
  story : ∀ userId, Climbs MIN_LEVEL (levelUpsOf userId events)
    (((standing userId).map Prod.snd).getD MIN_LEVEL)

section Story

variable {standing : Id → Option (ℤ × ℕ)} {events : List AppEvent} {userId : Id} {xp n : ℤ}
  {level : ℕ}

theorem LevelsTold.join (h : LevelsTold standing events) (hnew : standing userId = none) :
    LevelsTold (Function.update standing userId (some (0, MIN_LEVEL))) events where
  curve u xp level hu := by
    rw [Function.update_apply] at hu
    split at hu
    · cases hu
      rfl
    · exact h.curve u xp level hu
  story u := by
    have hstory := h.story u
    rw [Function.update_apply]
    split
    · rename_i hu
      rw [hu, hnew] at hstory
      rw [hu]
      exact hstory
    · exact hstory

theorem LevelsTold.quiet (h : LevelsTold standing events) {events' : List AppEvent}
    (hquiet : ∀ u, levelUpsOf u events' = []) : LevelsTold standing (events ++ events') where
  curve := h.curve
  story u := by
    rw [levelUpsOf_append, hquiet, List.append_nil]
    exact h.story u

-- A payment that announces the level it leads to, if it is a higher one.
theorem LevelsTold.pay (h : LevelsTold standing events)
    (hfound : standing userId = some (xp, level)) (hn : 0 ≤ n) :
    LevelsTold (Function.update standing userId (some (xp + n, levelFromXp (xp + n))))
      (events ++ levelUps userId level (levelFromXp (xp + n))) where
  curve u xp' level' hu := by
    rw [Function.update_apply] at hu
    split at hu
    · cases hu
      rfl
    · exact h.curve u xp' level' hu
  story u := by
    have hlevel : level = levelFromXp xp := h.curve userId xp level hfound
    have hup : level ≤ levelFromXp (xp + n) := hlevel ▸ levelFromXp_mono (by omega)
    rw [levelUpsOf_append, levelUpsOf_levelUps, Function.update_apply]
    refine (h.story u).append ?_
    by_cases hu : u = userId
    · subst hu
      rw [hfound, if_pos rfl]
      rcases hup.lt_or_eq with hlt | heq
      · rw [if_pos ⟨rfl, hlt⟩]
        exact ⟨rfl, hlt, rfl⟩
      · rw [if_neg (fun hrise => Nat.ne_of_lt hrise.2 heq)]
        exact heq.symm
    · rw [if_neg (fun hrise => hu hrise.1.symm), if_neg hu]
      exact rfl

end Story

section Standing

variable {w w' : World} {userId : Id} {user : User}

def World.LevelsTold (w : World) : Prop := SideQuest.LevelsTold w.standing w.events

theorem standing_of_users (h : w'.users = w.users) : w'.standing = w.standing := by
  funext u
  rw [World.standing, World.standing, h]

theorem standing_of_find? (h : w.users.find? userId = some user) :
    w.standing userId = some (user.xp, user.level) := by
  rw [World.standing, h]
  rfl

theorem standing_userUpdate (h : w.users.find? userId = some user) (d : UserUpdate) :
    (w.apply (.userUpdate userId d)).standing = Function.update w.standing userId
      (some (d.xp.apply user.xp, d.level.getD user.level)) := by
  funext u
  rw [World.standing, World.find?_userUpdate, Function.update_apply]
  split
  · rename_i hu
    rw [hu, h]
    rfl
  · rfl

theorem standing_keep (u : Id) {d : UserUpdate} (hxp : d.xp = .keep) (hlevel : d.level = none) :
    (w.apply (.userUpdate u d)).standing = w.standing := by
  cases hfound : w.users.find? u with
  | some user =>
      rw [standing_userUpdate hfound, hxp, hlevel]
      exact Function.update_eq_self_iff.mpr (standing_of_find? hfound).symm
  | none =>
      funext v
      rw [World.standing, World.find?_userUpdate]
      split
      · rename_i hv
        rw [World.standing, hv, hfound]
        rfl
      · rfl

theorem standing_userCreate {row : User} (h : w.users.find? row.id = none) :
    (w.apply (.userCreate row)).standing =
      Function.update w.standing row.id (some (row.xp, row.level)) := by
  funext u
  have hfind : (w.apply (.userCreate row)).users.find? u = _ := Table.find?_insert h u
  rw [World.standing, hfind, Function.update_apply]
  by_cases hu : row.id = u
  · rw [if_pos hu, if_pos hu.symm]
    rfl
  · rw [if_neg hu, if_neg (Ne.symm hu)]
    rfl

end Standing

section Quests

variable {w : World} {host : Host} {userId questId : Id} {user : User}

-- The finalization of a quest.
theorem levelsTold_finish (host : Host) (questId : Id) (quest : QuestWithLocations)
    (row : QuestCompletion) (proof : Option CompletionProof) (now : Time) (hw : w.LevelsTold)
    (hreward : 0 ≤ quest.quest.xpReward) (huser : w.users.find? userId = some user) :
    (view Stmt w ([claimWrite userId questId quest proof row now,
      rewardWrite host userId quest user now] ++
        (finishEvents userId questId quest user now).map .emit)).LevelsTold := by
  let completed : AppEvent := .questCompleted userId questId quest.quest.xpReward now
  have hlevel : user.level = levelFromXp user.xp :=
    hw.curve userId user.xp user.level (standing_of_find? huser)
  have hannounced : LevelsTold w.standing (w.events ++ [completed]) := hw.quiet fun _ => rfl
  have hpaid := hannounced.pay (standing_of_find? huser) hreward
  have hstanding : (view Stmt w [claimWrite userId questId quest proof row now,
      rewardWrite host userId quest user now]).standing = Function.update w.standing userId
        (some (user.xp + quest.quest.xpReward, levelFromXp (user.xp + quest.quest.xpReward))) :=
    standing_userUpdate (w := w.apply (claimWrite userId questId quest proof row now)) huser _
  rw [view_append, view_emits, World.LevelsTold]
  show LevelsTold (view Stmt w _).standing (w.events ++ finishEvents userId questId quest user now)
  rw [hstanding, finishEvents, ← hlevel, ← List.singleton_append, ← List.append_assoc]
  exact hpaid

-- The events and the standings are what counts.
theorem levelsTold_same (events : List AppEvent) {w' : World} (hw : w.LevelsTold)
    (hstanding : w'.standing = w.standing) (hevents : w'.events = w.events ++ events)
    (hquiet : ∀ u, levelUpsOf u events = []) : w'.LevelsTold := by
  rw [World.LevelsTold, hstanding, hevents]
  exact hw.quiet hquiet

theorem levelsTold_emit {event : AppEvent} {w' : World} (hw : w.LevelsTold)
    (hquiet : ∀ u, levelUpsOf u [event] = []) (hemit : w' = w.apply (.emit event)) :
    w'.LevelsTold := by
  subst hemit
  exact levelsTold_same [event] hw rfl rfl hquiet

theorem levelsTold_start (hw : w.LevelsTold) :
    ((start userId questId).alone w).2.LevelsTold := by
  have hends : Prog.Ends (fun _ w' => w'.LevelsTold) (start userId questId) w := by
    unfold start
    refine Prog.ends_query (fun _ => rfl) (Prog.ends_expect hw fun quest _ => ?_)
    refine Prog.ends_require hw fun _ => Prog.ends_query (fun _ => rfl) ?_
    refine Prog.ends_call (fun _ => hw) fun _ ws he => ?_
    let started : AppEvent := .questStarted userId questId
    rcases exec_completionUpsertStarted he with ⟨_, _, rfl⟩ | ⟨_, _, rfl⟩
    · exact levelsTold_same [started] hw rfl rfl fun _ => rfl
    · exact levelsTold_same [started] hw rfl rfl fun _ => rfl
  exact hends

theorem levelsTold_complete (hw : w.LevelsTold)
    (hrewards : ∀ quest ∈ w.quests.rows, 0 ≤ quest.xpReward) (proof : Option CompletionProof) :
    ((complete host userId questId proof).alone w).2.LevelsTold := by
  have hcases := complete_cases host userId questId proof w
  rcases hcases with ⟨_, hsame⟩ | ⟨_, quest, user, row, hquest, huser, hafter⟩
  · rwa [hsame]
  · rw [hafter]
    have hreward : 0 ≤ quest.quest.xpReward := hrewards _ (Table.mem_of_find? hquest)
    exact levelsTold_finish host questId quest row proof w.clock hw hreward huser

theorem standing_checkInWrites (locationId : Id) (body : QuestCheckInBody) :
    (view Stmt w (checkInWrites w userId questId locationId body)).standing = w.standing :=
  standing_keep userId rfl rfl

theorem levelsTold_checkInLocation (hw : w.LevelsTold)
    (hrewards : ∀ quest ∈ w.quests.rows, 0 ≤ quest.xpReward) (locationId : Id)
    (body : QuestCheckInBody) :
    ((checkInLocation host userId questId locationId body).alone w).2.LevelsTold := by
  have hcases := checkInLocation_cases host userId questId locationId body w
  rcases hcases with ⟨_, hsame⟩ | ⟨l, rfl, hopen⟩
  · rwa [hsame]
  · have hstep : (view Stmt w (checkInWrites w userId questId l.id body)).LevelsTold :=
      levelsTold_same [] hw (standing_checkInWrites l.id body) (List.append_nil _).symm fun _ => rfl
    by_cases hcount : (w.visitsAt userId questId).length + 1 < (w.locationsOf questId).length
    · rw [checkInLocation_alone_step hopen hcount, view_append]
      exact levelsTold_emit hstep (fun _ => rfl) rfl
    · obtain ⟨quest, row, user, hquest, huser, halone⟩ :=
        checkInLocation_alone_last hopen (Nat.le_of_not_lt hcount)
      have huser' : (view Stmt w (checkInWrites w userId questId l.id body)).users.find? userId =
          some (UserUpdate.apply { placesVisited := .increment 1 } user) := by
        simp [checkInWrites, World.apply, huser]
      have hfinish := levelsTold_finish host questId ⟨quest, w.locationsOf questId⟩ row
        (some .checkIns) w.clock hstep (hrewards _ (Table.mem_of_find? hquest)) huser'
      rw [halone, List.append_assoc, view_append, List.map_append, ← List.append_assoc, view_append]
      exact levelsTold_emit hfinish (fun _ => rfl) rfl

end Quests

section Register

variable {w : World} {host : Host} {dto : RegisterDto} {ids : FreshIds}

theorem levelsTold_session (hw : w.LevelsTold) (id : Id) (hash : Option String) :
    (w.apply (sessionWrite id hash)).LevelsTold :=
  levelsTold_same [] hw (standing_keep id rfl rfl) (List.append_nil _).symm fun _ => rfl

theorem levelsTold_issueTokens {user : User} (hw : w.LevelsTold)
    (hfound : (w.users.find? user.id).isSome) :
    ((issueTokens host user).alone w).2.LevelsTold := by
  rw [issueTokens_alone hfound]
  exact levelsTold_session hw user.id _

theorem standing_created (h : Free host dto ids w) : (created host dto ids w).standing =
    Function.update w.standing ids.user (some (0, MIN_LEVEL)) :=
  standing_userCreate h.id

theorem levelsTold_created (hw : w.LevelsTold) (h : Free host dto ids w) :
    (created host dto ids w).LevelsTold := by
  have hnew : w.standing ids.user = none := by rw [World.standing, h.id, Option.map_none]
  rw [World.LevelsTold, standing_created h]
  exact hw.join hnew

-- The two payments of a redemption, in the order of their announcements.
theorem levelsTold_redemption {token email : String} {inviteeId newId : Id} {invite : Invite}
    {inviter invitee : User} (hw : w.LevelsTold)
    (h : Redeemable host w token email inviteeId newId invite inviter invitee) :
    (view Stmt w (redemptionWrites w inviteeId newId invite inviter invitee ++
      (referralEvents (redemptionOutcome w inviteeId newId invite inviter invitee)).map
        .emit)).LevelsTold := by
  let base := view Stmt w (claimWrite invite.id inviteeId w.clock ::
    befriendWrites w invite.inviterId inviteeId newId)
  let accepted : AppEvent := .friendRequestAccepted invite.inviterId inviteeId
    (befriendedId w invite.inviterId inviteeId newId)
  have husers : base.users = w.users := users_befriendWrites _
  have hevents : base.events = w.events := events_befriendWrites _
  have hbase : LevelsTold base.standing (w.events ++ [accepted]) :=
    standing_of_users husers ▸ hw.quiet fun _ => rfl
  have hinviter : base.users.find? invite.inviterId = some inviter := husers ▸ h.inviter_found
  have hinvitee : base.users.find? inviteeId = some invitee := husers ▸ h.invitee_found
  have hfirst := hbase.pay (standing_of_find? hinviter) (by decide : 0 ≤ REFERRAL_XP)
  have hstill : Function.update base.standing invite.inviterId
      (some (inviter.xp + REFERRAL_XP, levelFromXp (inviter.xp + REFERRAL_XP))) inviteeId =
        some (invitee.xp, invitee.level) := by
    rw [Function.update_of_ne h.distinct.symm]
    exact standing_of_find? hinvitee
  have hboth := hfirst.pay hstill (by decide : 0 ≤ REFERRAL_XP)
  have hrow : (base.apply (referralWrite inviter invite.inviterId)).users.find? inviteeId =
      some invitee := by
    rw [World.find?_userUpdate, if_neg h.distinct.symm]
    exact hinvitee
  have hpaid := standing_userUpdate hrow (referralData invitee)
  rw [standing_userUpdate hinviter (referralData inviter)] at hpaid
  rw [view_append, view_emits, redemptionWrites, ← List.cons_append, view_append]
  show LevelsTold ((base.apply (referralWrite inviter invite.inviterId)).apply
    (referralWrite invitee inviteeId)).standing (base.events ++
      referralEvents (redemptionOutcome w inviteeId newId invite inviter invitee))
  rw [hpaid, hevents, referralEvents, ← List.singleton_append, ← List.append_assoc,
    ← List.append_assoc]
  exact hboth

theorem levelsTold_register (hw : w.LevelsTold) :
    ((register host dto ids).alone w).2.LevelsTold := by
  rcases register_needs host dto ids w with ⟨_, hsame⟩ | ⟨hfree, hneeds⟩
  · rwa [hsame]
  · have hcreated : (created host dto ids w).LevelsTold := levelsTold_created hw hfree
    have hfound : ((created host dto ids w).users.find? ids.user).isSome := by
      have hfind : (created host dto ids w).users.find? ids.user = _ :=
        Table.find?_insert hfree.id ids.user
      rw [hfind]
      exact if_pos rfl ▸ rfl
    cases htoken : dto.token host with
    | none =>
        rw [register_alone_plain hfree htoken]
        exact levelsTold_issueTokens hcreated hfound
    | some token =>
        obtain ⟨invite, inviter, hredeems⟩ := hneeds token htoken
        rw [register_alone_referral hfree htoken hredeems]
        refine levelsTold_issueTokens (levelsTold_redemption hcreated hredeems) ?_
        exact isSome_user_view hfound _

end Register

section Evaluate

variable {w : World} {userId : Id} {user : User} {achievement : Achievement}

theorem standing_unlockWrites (huser : w.users.find? userId = some user) :
    (view Stmt w (unlockWrites userId w user achievement)).standing =
      if achievement.xpBonus > 0 then Function.update w.standing userId
        (some (user.xp + achievement.xpBonus, levelFromXp (user.xp + achievement.xpBonus)))
      else w.standing := by
  have husers := users_unlockWrite userId w achievement
  unfold unlockWrites
  split
  · have hfound : (view Stmt w [unlockWrite userId w achievement]).users.find? userId = some user :=
      husers ▸ huser
    have hpaid : ((view Stmt w [unlockWrite userId w achievement]).apply
        (bonusWrite userId achievement)).users.find? userId =
          some (UserUpdate.apply { xp := .increment achievement.xpBonus } user) := by
      rw [World.find?_userUpdate, if_pos rfl, hfound]
      rfl
    have hlevel := standing_userUpdate hpaid
      { level := some (levelFromXp (user.xp + achievement.xpBonus)) }
    rw [standing_userUpdate hfound, Function.update_idem, standing_of_users husers] at hlevel
    exact hlevel
  · exact standing_of_users husers

theorem levelsTold_unlocking (hw : w.LevelsTold) (huser : w.users.find? userId = some user) :
    (view Stmt w (unlockWrites userId w user achievement ++
      (unlockEvents userId user achievement).map .emit)).LevelsTold := by
  let unlocked : AppEvent := .achievementUnlocked userId achievement.id achievement.slug
  have hevents : (view Stmt w (unlockWrites userId w user achievement)).events = w.events := by
    unfold unlockWrites unlockWrite
    split <;> split <;> rfl
  have hannounced : LevelsTold w.standing (w.events ++ [unlocked]) := hw.quiet fun _ => rfl
  rw [view_append, view_emits]
  show LevelsTold (view Stmt w (unlockWrites userId w user achievement)).standing
    ((view Stmt w (unlockWrites userId w user achievement)).events ++
      unlockEvents userId user achievement)
  rw [standing_unlockWrites huser, hevents]
  by_cases hbonus : achievement.xpBonus > 0
  · have hpaid := hannounced.pay (standing_of_find? huser) (Int.le_of_lt hbonus)
    rw [if_pos hbonus]
    simp only [unlockEvents, hbonus, true_and]
    rwa [List.append_assoc] at hpaid
  · rw [if_neg hbonus]
    simp only [unlockEvents, hbonus, false_and, if_false]
    exact hannounced

-- One round for a user that there is.
theorem levelsTold_evaluateOne (hw : w.LevelsTold) (huser : w.users.find? userId = some user)
    (hdefined : (w.achievements.find? achievement.id).isSome) :
    ((evaluateOne userId achievement).alone w).2.LevelsTold := by
  rw [evaluateOne_alone huser hdefined]
  unfold roundWrites
  dsimp only
  split
  · exact hw
  · split
    · exact levelsTold_unlocking hw huser
    · split
      · split
        · exact levelsTold_same [] hw rfl (List.append_nil _).symm fun _ => rfl
        · exact hw
      · split
        · exact levelsTold_same [] hw rfl (List.append_nil _).symm fun _ => rfl
        · exact hw

-- Nobody has been paid, and no level announced.
structure Unpaid (w w' : World) : Prop where
  users : w'.users = w.users
  announced : ∃ events, w'.events = w.events ++ events ∧ ∀ u, levelUpsOf u events = []

theorem Unpaid.of_same {w' : World} (husers : w'.users = w.users) (hevents : w'.events = w.events) :
    Unpaid w w' := ⟨husers, [], hevents.trans (List.append_nil _).symm, fun _ => rfl⟩

theorem Unpaid.refl (w : World) : Unpaid w w := .of_same rfl rfl

theorem Unpaid.levelsTold {w' : World} (h : Unpaid w w') (hw : w.LevelsTold) : w'.LevelsTold := by
  obtain ⟨events, hevents, hquiet⟩ := h.announced
  exact levelsTold_same events hw (standing_of_users h.users) hevents hquiet

theorem unlockTx_missing (hnone : w.users.find? userId = none) :
    Tx.Returns (fun _ ws => ¬achievement.xpBonus > 0 ∧ Unpaid w (view Stmt w ws))
      (unlockTx userId achievement) [] w := by
  unfold unlockTx
  refine Tx.returns_query (fun _ => rfl) (Tx.returns_call fun _ ws he => ?_)
  have hunpaid : Unpaid w (view Stmt w ([] ++ ws)) := by
    rcases exec_userAchievementUpsertUnlocked he with ⟨_, _, rfl⟩ | ⟨_, _, rfl⟩
    · exact .of_same rfl rfl
    · exact .of_same rfl rfl
  split
  · refine Tx.returns_call fun _ _ he => ?_
    obtain ⟨row, hrow, _⟩ := exec_userUpdate he
    rw [hunpaid.users, hnone] at hrow
    cases hrow
  · rename_i hbonus
    intro _ _ hrun
    cases hrun
    exact ⟨hbonus, hunpaid⟩

-- Without the user nothing is paid.
theorem unlock_missing (hnone : w.users.find? userId = none) :
    Prog.Ends (fun _ w' => Unpaid w w') (unlock userId achievement) w := by
  unfold unlock
  refine Prog.ends_query (fun _ => rfl) ?_
  refine Prog.ends_transaction (fun _ => Unpaid.refl w) fun _ ws hrun => ?_
  obtain ⟨hbonus, hunpaid⟩ := unlockTx_missing hnone _ ws hrun
  rw [if_neg hbonus]
  refine Prog.ends_bind alone_emit ?_
  obtain ⟨events, hevents, hquiet⟩ := hunpaid.announced
  let unlocked : AppEvent := .achievementUnlocked userId achievement.id achievement.slug
  refine ⟨hunpaid.users, events ++ [unlocked], ?_, fun u => ?_⟩
  · rw [← List.append_assoc, ← hevents]
    rfl
  · rw [levelUpsOf_append, hquiet]
    rfl

theorem evaluateOne_missing (hnone : w.users.find? userId = none) :
    Prog.Ends (fun _ w' => Unpaid w w') (evaluateOne userId achievement) w := by
  have hunlock : Prog.Ends (fun _ w' => Unpaid w w') (unlock userId achievement) w :=
    unlock_missing hnone
  have hwhen {c : Prop} [Decidable c] {st : Stmt Unit} (hst : ∀ ws, Stmt.exec st w = .ok ((), ws) →
      Unpaid w (view Stmt w ws)) : Prog.Ends (fun _ w' => Unpaid w w')
        (Prog.when c (prisma st)) w := by
    unfold Prog.when
    split
    · exact Prog.ends_call (f := Prog.pure) (fun _ => Unpaid.refl w) fun _ ws he => hst ws he
    · exact Unpaid.refl w
  unfold evaluateOne
  refine Prog.ends_query (fun _ => rfl) ?_
  split
  · exact Unpaid.refl w
  · refine Prog.ends_bind (evaluateWithProgress_alone userId w achievement) ?_
    split
    · split
      · exact hunlock
      · refine hwhen fun ws he => ?_
        obtain ⟨_, rfl⟩ := exec_userAchievementUpdateProgress he
        exact .of_same rfl rfl
    · split
      · exact hunlock
      · refine hwhen fun ws he => ?_
        obtain ⟨_, _, rfl⟩ := exec_userAchievementCreate he
        exact .of_same rfl rfl

theorem levelsTold_evaluateEach (hw : w.LevelsTold) {definitions : List Achievement}
    (hdefined : ∀ a ∈ definitions, (w.achievements.find? a.id).isSome) :
    Prog.Ends (fun _ w' => w'.LevelsTold) (evaluateEach userId definitions) w := by
  induction definitions generalizing w with
  | nil => exact hw
  | cons achievement rest ih =>
      have hrest : ∀ a ∈ rest, (w.achievements.find? a.id).isSome :=
        fun a ha => hdefined a (List.mem_cons_of_mem _ ha)
      cases huser : w.users.find? userId with
      | some user =>
          have hhead := hdefined achievement List.mem_cons_self
          have htold := levelsTold_evaluateOne hw huser hhead
          have halone := evaluateOne_alone huser hhead
          rw [halone] at htold
          refine Prog.ends_bind halone (ih htold ?_)
          rwa [view_achievements]
      | none =>
          have hmissing : Prog.Ends (fun _ w' => Unpaid w w') (evaluateOne userId achievement) w :=
            evaluateOne_missing huser
          have hsame : ((evaluateOne userId achievement).alone w).2.achievements =
              w.achievements :=
            Prog.alone_keeps (fun db wr hdb => (view_achievements db [wr]).trans hdb) _ rfl
          refine Prog.ends_then (P := fun _ w' => Unpaid w w' ∧ w'.achievements = w.achievements)
            ⟨hmissing, hsame⟩ (fun _ w' h => ?_) fun _ w' h => h.1.levelsTold hw
          refine ih (h.1.levelsTold hw) ?_
          rwa [h.2]

theorem levelsTold_evaluateForUser (hw : w.LevelsTold) :
    ((evaluateForUser userId).alone w).2.LevelsTold := by
  have hends : Prog.Ends (fun _ w' => w'.LevelsTold) (evaluateForUser userId) w := by
    unfold evaluateForUser
    refine Prog.ends_query (fun _ => rfl) (levelsTold_evaluateEach hw fun a ha => ?_)
    rw [Table.find?_of_mem ha]
    rfl
  exact hends

end Evaluate

-- Nobody has left the first level yet.
theorem levelsTold_init {w : World}
    (husers : ∀ user ∈ w.users.rows, user.level = MIN_LEVEL ∧ levelFromXp user.xp = MIN_LEVEL)
    (hevents : ∀ userId, levelUpsOf userId w.events = []) : w.LevelsTold where
  curve userId xp level h := by
    obtain ⟨user, huser, hstanding⟩ := Option.map_eq_some_iff.mp h
    cases hstanding
    obtain ⟨hlevel, hxp⟩ := husers user (Table.mem_of_find? huser)
    rw [hlevel, hxp]
  story userId := by
    rw [hevents, World.standing]
    cases huser : w.users.find? userId with
    | none => rfl
    | some user => exact (husers user (Table.mem_of_find? huser)).1

-- Requests that are served one at a time, at any times, leave behind levels that are
-- those of the XP, and events that lead to each of them from the first level.
theorem levelsTold_oneByOne (host : Host) {w : World} (hw : w.LevelsTold)
    (hrewards : ∀ quest ∈ w.quests.rows, 0 ≤ quest.xpReward) (calls : List (ℕ × Request Unit))
    (hcalls : ∀ call ∈ calls, PayingRequest host call.2) :
    (oneByOne servedAfter calls w).LevelsTold := by
  let inv (w' : World) : Prop := w'.LevelsTold ∧ w'.quests = w.quests
  have hany : EachMeets servedAfter (fun _ _ => True) calls w :=
    eachMeets_of_forall (fun _ _ => trivial) calls w
  have hrun : inv (oneByOne servedAfter calls w) := by
    refine oneByOne_inv (fun call hmem db hdb _ => ⟨?_, ?_⟩) ⟨hw, rfl⟩ hany
    · obtain ⟨elapsed, p⟩ := call
      have hstart : World.LevelsTold { db with clock := db.clock + elapsed } := hdb.1
      have hrewards' : ∀ quest ∈ db.quests.rows, 0 ≤ quest.xpReward := hdb.2.symm ▸ hrewards
      have hp : PayingRequest host p := hcalls _ hmem
      unfold servedAfter
      rcases hp with (⟨userId, questId, hquest⟩ | ⟨userId, rfl⟩) | ⟨dto, ids, rfl⟩
      · cases hquest with
        | start => exact levelsTold_start hstart
        | complete proof =>
            rw [Prog.alone_void]
            exact levelsTold_complete hstart hrewards' proof
        | checkInLocation locationId body =>
            rw [Prog.alone_void]
            exact levelsTold_checkInLocation hstart hrewards' locationId body
      · exact levelsTold_evaluateForUser hstart
      · rw [Prog.alone_void]
        exact levelsTold_register hstart
    · exact Prog.alone_keeps (fun db' wr hdb' => (view_quests db' [wr]).trans hdb') call.2 hdb.2
  exact hrun.1

-- The hiker completes the quest, and is then paid for the referral.
theorem levelsTold_questAndReferral :
    let w := oneByOne servedAfter (questAndReferral.map fun p => (1000, p)) invitingHiker
    w.LevelsTold ∧ levelUpsOf 1 w.events = [(1, 2)] ∧ w.standing 1 = some (150, 2) := by
  refine ⟨levelsTold_oneByOne .plain ?_ (by decide +kernel) _ ?_, by decide +kernel,
    by decide +kernel⟩
  · exact levelsTold_init (by decide +kernel) fun _ => rfl
  · intro call hcall
    obtain ⟨p, hp, rfl⟩ := List.mem_map.mp hcall
    exact questAndReferral_requests p hp

end SideQuest
