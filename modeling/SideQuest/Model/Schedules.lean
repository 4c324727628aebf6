import SideQuest.Model.Host

-- `StreakRolloverService`: the job that runs at midnight UTC.

namespace SideQuest

namespace StreakRolloverService

def MS_PER_DAY : ℤ := 86400000

def startOfUtcDay (d : Time) : Time := d / MS_PER_DAY * MS_PER_DAY

def resetStaleStreaksUtc : Request Unit := do
  let now ← prisma .now
  let startOfTodayUtc := startOfUtcDay now
  let cutoff := startOfTodayUtc - MS_PER_DAY
  let _ ← prisma (.userResetStreaks cutoff)
  return ()

end StreakRolloverService

end SideQuest
