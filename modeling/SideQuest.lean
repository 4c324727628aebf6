import SideQuest.Quests.Published
import SideQuest.Quests.OncePerStart
import SideQuest.Quests.LastWaypoint
import SideQuest.Quests.Finishing
import SideQuest.Achievements.UnlockedOnce
import SideQuest.Invites.SingleRedemption
import SideQuest.Invites.Lifecycle
import SideQuest.Friendships.OnePerPair
import SideQuest.Rewards.Levels
import SideQuest.Rewards.LevelStory
import SideQuest.Rewards.Ledger
import SideQuest.Streaks.Daily
import SideQuest.Ratings.Summary
import SideQuest.Auth.SingleUse
import SideQuest.Auth.Credentials
import SideQuest.Auth.LockedOut
import SideQuest.Auth.RefreshChain
import SideQuest.Friendships.Consent
import SideQuest.Invites.Limits
import SideQuest.Invites.Preview
import SideQuest.Achievements.Fixpoint
import SideQuest.Achievements.RunToEnd
import SideQuest.Listings.Walk
import SideQuest.Friendships.Feed
import SideQuest.Rewards.Curve
import SideQuest.Notifications.Payloads
import SideQuest.Quests.Nearby
import SideQuest.Leaderboard.Coherent
import SideQuest.Geo.BoundingBox
import SideQuest.Quests.Availability
import SideQuest.Leaderboard.Periods
import SideQuest.Events.Announced
import SideQuest.Rewards.Counters
import SideQuest.Notifications.Inbox
import SideQuest.Quests.Authoring
import SideQuest.Stats.Served
import SideQuest.Friendships.Presence
import SideQuest.Friendships.FriendList
import SideQuest.Businesses.Portal
import SideQuest.Geo.Pins
import SideQuest.Events.Refused
import SideQuest.Invites.Links
import SideQuest.Ratings.Range
import SideQuest.Uploads.Kept
import SideQuest.Friendships.Shown
import SideQuest.Achievements.NoneMissed
