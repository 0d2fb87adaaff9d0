import Sprout.SynchronizedFSM.Safety
import Sprout.QuiescingManager.Drain
import Sprout.Authentication.Admission
import Sprout.MMFService
