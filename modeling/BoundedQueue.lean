import BoundedQueue.Hook.Rule
import BoundedQueue.Proofs.Precedence
import BoundedQueue.Proofs.Queue.Relabel
import BoundedQueue.Proofs.Ring.Fifo
import BoundedQueue.Proofs.Schedule.Translation
import BoundedQueue.Proofs.Semaphore.Counting
import BoundedQueue.Proofs.Sequential.Refinement
import BoundedQueue.Proofs.Session.Attempts
import BoundedQueue.Proofs.Session.Blocking
import BoundedQueue.Proofs.Session.Clearing
import BoundedQueue.Proofs.Session.Completion
import BoundedQueue.Proofs.Session.Finality
import BoundedQueue.Proofs.Session.Guards
import BoundedQueue.Proofs.Session.Hooks
import BoundedQueue.Proofs.Session.Iteration
import BoundedQueue.Proofs.Session.Opening
import BoundedQueue.Proofs.Session.Panics
import BoundedQueue.Proofs.Session.Relabel
import BoundedQueue.Proofs.Session.Transparency
import BoundedQueue.Proofs.Session.Undoing
import BoundedQueue.Proofs.Session.Warnings
import BoundedQueue.Ring.Script
import BoundedQueue.Semaphore.Session
