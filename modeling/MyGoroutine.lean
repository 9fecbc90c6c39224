import MyGoroutine.Sched.Conservation
import MyGoroutine.Sched.Permit
import MyGoroutine.Sched.Order
import MyGoroutine.Wake.Match
import MyGoroutine.Net.Interest
import MyGoroutine.Workers.Attend
import MyGoroutine.Workers.Strand
import MyGoroutine.Workers.Shutdown
import MyGoroutine.Chan.Outcome
import MyGoroutine.Chan.Represent
import MyGoroutine.Chan.Final
import MyGoroutine.Group.Wait
import MyGoroutine.Group.Counter
import MyGoroutine.Timers.Check
import MyGoroutine.Timers.Block
import MyGoroutine.Timers.Sleep
import MyGoroutine.Chan.Pipeline
import MyGoroutine.Net.Oneshot
import MyGoroutine.Poll.Idle
import MyGoroutine.Poll.Park
import MyGoroutine.Yield.Complete
import MyGoroutine.Yield.RoundRobin
import MyGoroutine.Switch.Fresh
import MyGoroutine.Refine.Determinate
import MyGoroutine.Refine.Barrier
